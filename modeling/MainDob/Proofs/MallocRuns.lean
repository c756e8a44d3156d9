/-
Purpose: A program and its heap over any sequence of calls: the heap is tiled by
  blocks, the free ones are the free list and the used ones the allocations the
  program holds; every call serves the program and leaves the contents of its
  other allocations alone.
Main exports: Alloc, Program, heap_contract
-/
import MainDob.Proofs.MallocCalls

namespace MainDob.Libc

open Lib (Chunk)
open List

/-! ### A program and its allocations -/

/-- An allocation as the program knows it: a pointer and the size it asked for. -/
structure Alloc where
  ptr : Nat
  size : Nat
deriving DecidableEq, Repr

/-- The heap, and the allocations the program holds. -/
structure Program where
  heap : Heap
  live : List Alloc

/-- The allocations held after a call that has returned `result`. -/
def liveAfter (live : List Alloc) (result : Nat) : Op → List Alloc
  | .malloc size => if result = 0 then live else ⟨result, size⟩ :: live
  | .free ptr => live.filter (·.ptr ≠ ptr)
  | .calloc count size =>
    if result = 0 then live else ⟨result, count * size⟩ :: live
  | .realloc ptr size =>
    if size = 0 then live.filter (·.ptr ≠ ptr)
    else if result = 0 then live
    else ⟨result, size⟩ :: live.filter (·.ptr ≠ ptr)
  | .store _ _ => live

namespace Program

def result (p : Program) (op : Op) : Nat := (perform p.heap op).1

def call (p : Program) (op : Op) : Program :=
  ⟨(perform p.heap op).2, liveAfter p.live (p.result op) op⟩

def run (p : Program) : List Op → Program
  | [] => p
  | op :: rest => (p.call op).run rest

end Program

/-- `NULL`, or a pointer the program holds. -/
def Held (p : Program) (ptr : Nat) : Prop := ptr = 0 ∨ ptr ∈ p.live.map Alloc.ptr

/-- A request is below the bound, and only what is held is released or written;
`calloc` may also be asked for more than a size can say. -/
def Allowed (p : Program) : Op → Prop
  | .malloc size => size < maxRequest
  | .free ptr => Held p ptr
  | .calloc count size => count < 2 ^ 32 ∧ size < 2 ^ 32 ∧
      (count * size < maxRequest ∨ 2 ^ 32 ≤ count * size)
  | .realloc ptr size => Held p ptr ∧ size < maxRequest
  | .store a _ => ∃ alloc ∈ p.live, alloc.ptr ≤ a ∧ a < alloc.ptr + alloc.size

/-- Every call of the sequence is allowed when it is made. -/
def Permitted (p : Program) : List Op → Prop
  | [] => True
  | op :: rest => Allowed p op ∧ Permitted (p.call op) rest

instance (p : Program) (ptr : Nat) : Decidable (Held p ptr) :=
  inferInstanceAs (Decidable (_ ∨ _))

instance decideAllowed (p : Program) : (op : Op) → Decidable (Allowed p op)
  | .malloc _ => inferInstanceAs (Decidable (_ < _))
  | .free _ => inferInstanceAs (Decidable (Held _ _))
  | .calloc _ _ => inferInstanceAs (Decidable (_ ∧ _ ∧ _))
  | .realloc _ _ => inferInstanceAs (Decidable (_ ∧ _))
  | .store _ _ => inferInstanceAs (Decidable (∃ alloc ∈ p.live, _))

instance decidePermitted : (p : Program) → (ops : List Op) → Decidable (Permitted p ops)
  | _, [] => .isTrue trivial
  | p, op :: rest =>
    haveI := decidePermitted (p.call op) rest
    inferInstanceAs (Decidable (Allowed p op ∧ Permitted (p.call op) rest))

/-- How many bytes a call asks for. -/
def Op.wants : Op → Nat
  | .malloc size => size
  | .calloc count size => count * size
  | .realloc _ size => size
  | _ => 0

/-! ### Allocations and used blocks -/

/-- Where the bytes of a block begin that the program gets. -/
def payload (block : Chunk) : Nat := block.addr + headerSize

/-- The allocations are the used blocks, one each, and no larger. -/
structure Matches (live : List Alloc) (owned : List Chunk) : Prop where
  ptrs : (live.map Alloc.ptr).Perm (owned.map payload)
  fits : ∀ alloc ∈ live, ∀ block ∈ owned, alloc.ptr = payload block → alloc.size ≤ block.size

variable {alloc : Alloc}

namespace Matches

variable {live : List Alloc} {owned owned' : List Chunk} {block : Chunk}

section

variable (held : Matches live owned)
include held

theorem perm (same : owned.Perm owned') : Matches live owned' where
  ptrs := held.ptrs.trans (same.map payload)
  fits := fun alloc member block there => held.fits alloc member block (same.mem_iff.mpr there)

theorem block_of (member : alloc ∈ live) :
    ∃ block ∈ owned, alloc.ptr = payload block ∧ alloc.size ≤ block.size := by
  have there := held.ptrs.mem_iff.mp (mem_map.mpr ⟨alloc, member, rfl⟩)
  obtain ⟨block, among, same⟩ := mem_map.mp there
  exact ⟨block, among, same.symm, held.fits alloc member block among same.symm⟩

theorem cons {size : Nat} (fresh : payload block ∉ owned.map payload) (room : size ≤ block.size) :
    Matches (⟨payload block, size⟩ :: live) (block :: owned) where
  ptrs := held.ptrs.cons _
  fits := by
    intro alloc member other there same
    rcases mem_cons.mp member with rfl | old
    · rcases mem_cons.mp there with rfl | older
      · exact room
      · exact absurd (mem_map.mpr ⟨other, older, same.symm⟩) fresh
    · rcases mem_cons.mp there with rfl | older
      · refine absurd ?_ fresh
        rw [← same]
        exact held.ptrs.mem_iff.mp (mem_map.mpr ⟨alloc, old, rfl⟩)
      · exact held.fits alloc old other older same

end

theorem erase (held : Matches live (block :: owned)) (fresh : payload block ∉ owned.map payload) :
    Matches (live.filter (·.ptr ≠ payload block)) owned where
  ptrs := by
    have filtered := held.ptrs.filter (fun ptr => decide (ptr ≠ payload block))
    have others : (owned.map payload).filter
        (fun ptr => decide (ptr ≠ payload block)) = owned.map payload := by
      refine filter_eq_self.mpr ?_
      intro ptr member
      rw [decide_eq_true_eq]
      rintro rfl
      exact fresh member
    rw [filter_map, map_cons, filter_cons_of_neg (by simp), others] at filtered
    exact filtered
  fits := fun alloc member other there =>
    held.fits alloc (mem_filter.mp member).1 other (mem_cons_of_mem _ there)

end Matches

/-- The contents of the allocations are the same. -/
def Kept (live : List Alloc) (heap heap' : Heap) : Prop :=
  ∀ alloc ∈ live, ∀ i < alloc.size, heap'.mem (alloc.ptr + i) = heap.mem (alloc.ptr + i)

theorem Frame.kept {heap heap' : Heap} {blocks : List Chunk} {live : List Alloc}
    (frame : Frame heap heap' blocks) (held : Matches live blocks) : Kept live heap heap' := by
  intro alloc member i below
  obtain ⟨block, among, same, room⟩ := held.block_of member
  unfold payload at same
  exact frame block among _ (by omega) (by omega)

theorem Shaped.payloads_nodup {heap : Heap} {start : Nat} {blocks : List Chunk} {free : List Nat}
    (shaped : Shaped heap start blocks free) : ((used blocks).map payload).Nodup := by
  have distinct : ((used blocks).map Chunk.addr).Nodup :=
    (filter_sublist.map Chunk.addr).nodup (shaped.tiled.addrs_nodup header_positive)
  have moved := distinct.map (f := (· + headerSize)) (fun _ _ => add_right_cancel)
  rw [map_map] at moved
  exact moved

/-! ### What holds of a program -/

/-- From its start to the break the heap is tiled by blocks; the free list holds
exactly the free ones, each once; the used ones are the allocations of the program,
apart from each other, large enough, below the break and not in the list. -/
structure Intact (start : Nat) (p : Program) (blocks : List Chunk)
    (free : List Nat) : Prop where
  shaped : Shaped p.heap start blocks free
  once : free.Nodup
  held : Matches p.live (used blocks)
  apart : (used blocks).Pairwise (fun a b => payload a + a.size ≤ b.addr)
  within : ∀ alloc ∈ p.live, start < alloc.ptr ∧ alloc.ptr + alloc.size ≤ p.heap.brk
  unlisted : ∀ alloc ∈ p.live, alloc.ptr - headerSize ∉ free

/-- What a call does for the program. -/
structure Served (start : Nat) (p : Program) (op : Op) : Prop where
  kept : (∀ a byte, op ≠ .store a byte) → ∀ alloc ∈ p.live, alloc ∈ (p.call op).live →
    ∀ i < alloc.size, (p.call op).heap.mem (alloc.ptr + i) = p.heap.mem (alloc.ptr + i)
  zeroed : ∀ count size, op = .calloc count size → p.result op ≠ 0 →
    ∀ i < count * size, (p.call op).heap.mem (p.result op + i) = 0
  moved : ∀ ptr size, op = .realloc ptr size → p.result op ≠ 0 → ∀ alloc ∈ p.live, alloc.ptr = ptr →
    ∀ i < min alloc.size size, (p.call op).heap.mem (p.result op + i) = p.heap.mem (ptr + i)
  refused : op.wants ≠ 0 → p.result op = 0 → (p.call op).live = p.live ∧
    (2 ^ 32 ≤ op.wants ∨ Refused start op.wants (p.call op).heap)

/-- The invariant of a run. -/
structure Sound (start : Nat) (p : Program) (blocks : List Chunk)
    (free : List Nat) : Prop where
  standing : Standing p.heap start blocks free
  held : Matches p.live (used blocks)

variable {p : Program}

theorem Sound.intact {start : Nat} {blocks : List Chunk} {free : List Nat}
    (sound : Sound start p blocks free) : Intact start p blocks free where
  shaped := sound.standing.shaped
  once := sound.standing.shaped.free_nodup
  held := sound.held
  apart := (sound.standing.shaped.tiled.ordered).filter _
  within := by
    intro alloc member
    obtain ⟨block, among, same, room⟩ := sound.held.block_of member
    have bounds := sound.standing.shaped.tiled.bounds (mem_used.mp among).1
    unfold payload at same
    have header := header_positive
    omega
  unlisted := by
    intro alloc member listed
    obtain ⟨block, among, same, _⟩ := sound.held.block_of member
    obtain ⟨there, owned⟩ := mem_used.mp among
    obtain ⟨other, among', unused, same'⟩ := sound.standing.shaped.free_block listed
    unfold payload at same
    have equal := sound.standing.shaped.tiled.unique header_positive among' there (by omega)
    rw [equal, owned] at unused
    cases unused

/-! ### Writes of the program -/

section

variable {heap : Heap} {start : Nat} {blocks : List Chunk} {free : List Nat}
  {block : Chunk} {mem' : Nat → UInt8} (member : block ∈ blocks)
  (only : ∀ x, x < payload block ∨ payload block + block.size ≤ x → mem' x = heap.mem x)

include member only

theorem Standing.written (standing : Standing heap start blocks free) :
    Standing { heap with mem := mem' } start blocks free := by
  have shaped := standing.shaped
  have same : ∀ a ∈ blocks.map Chunk.addr,
      ({ heap with mem := mem' } : Heap).header a = heap.header a := by
    intro a here
    obtain ⟨other, among, rfl⟩ := mem_map.mp here
    refine header_congr (fun x low high => only x ?_)
    unfold payload
    rcases shaped.tiled.apart among member with rfl | below | above
    · exact Or.inl high
    · exact Or.inl (by omega)
    · exact Or.inr (by omega)
  constructor
  · exact { shaped with
      heads := fun other among => by
        rw [same _ (mem_map.mpr ⟨other, among, rfl⟩)]
        exact shaped.heads other among
      linked := shaped.linked.congr fun a listed => by
        unfold Heap.after
        rw [same a (shaped.free_addr listed)] }
  · intro unready
    rw [(standing.fresh unready).1] at member
    cases member

theorem Standing.written_frame (standing : Standing heap start blocks free)
    {others : List Chunk} (among : ∀ other ∈ others, other ∈ blocks ∧ other ≠ block) :
    Frame heap { heap with mem := mem' } others := by
  intro other there x low high
  obtain ⟨inBlocks, different⟩ := among other there
  refine only x ?_
  unfold payload
  rcases standing.shaped.tiled.apart inBlocks member with same | below | above
  · exact absurd same different
  · exact Or.inl (by omega)
  · exact Or.inr (by omega)

end

/-! ### One call -/

section

variable {heap : Heap} {start : Nat} {blocks : List Chunk} {free : List Nat}
  (shaped : Shaped heap start blocks free) {block : Chunk} {owned : List Chunk}
  (same : (used blocks).Perm (block :: owned))
include shaped same

theorem Shaped.payload_fresh : payload block ∉ owned.map payload :=
  (nodup_cons.mp ((same.map payload).nodup_iff.mp shaped.payloads_nodup)).1

theorem Shaped.others : block ∈ blocks ∧ ∀ other ∈ owned, other ∈ blocks ∧ other ≠ block := by
  refine ⟨(mem_used.mp (same.mem_iff.mpr mem_cons_self)).1, ?_⟩
  intro other member
  refine ⟨(mem_used.mp (same.mem_iff.mpr (mem_cons_of_mem _ member))).1, ?_⟩
  rintro rfl
  exact shaped.payload_fresh same (mem_map.mpr ⟨other, member, rfl⟩)

end

theorem Sound.malloc {start size : Nat} {blocks : List Chunk} {free : List Nat}
    (sound : Sound start p blocks free) (bound : size ≤ maxRequest) : ∃ blocks' free', Standing
    (mallocUnlocked p.heap size).2 start blocks' free' ∧ Frame p.heap (mallocUnlocked p.heap size).2
      (used blocks) ∧ (((mallocUnlocked p.heap size).1 = 0 ∧ Matches p.live (used blocks') ∧
          (size = 0 ∨ Refused start size (mallocUnlocked p.heap size).2)) ∨
        ∃ block, (mallocUnlocked p.heap size).1 = payload block ∧
          (mallocUnlocked p.heap size).1 ≠ 0 ∧ size ≤ block.size ∧ (used blocks').Perm
          (block :: used blocks) ∧ Matches (⟨payload block, size⟩ :: p.live) (used blocks')) := by
  obtain ⟨blocks', free', standing, frame, refused | handed⟩ :=
    mallocUnlocked_standing sound.standing bound
  · obtain ⟨null, owned, reason⟩ := refused
    exact ⟨blocks', free', standing, frame, Or.inl ⟨null, owned ▸ sound.held, reason⟩⟩
  obtain ⟨b, has, result, room, owned⟩ := handed
  have fresh := standing.shaped.payload_fresh owned
  refine ⟨blocks', free', standing, frame, Or.inr ⟨⟨b, has, true⟩, result, ?_, room, owned, ?_⟩⟩
  · rw [result]
    have header := header_positive
    omega
  · exact (sound.held.cons fresh room).perm owned.symm

section

variable {start : Nat} {blocks : List Chunk} {free : List Nat} (sound : Sound start p blocks free)
include sound

theorem Sound.ptr_positive (member : alloc ∈ p.live) : alloc.ptr ≠ 0 := by
  have low := (sound.intact.within alloc member).1
  omega

theorem Sound.filter_null : p.live.filter (·.ptr ≠ 0) = p.live :=
  filter_eq_self.mpr (fun _ member => decide_eq_true (sound.ptr_positive member))

protected theorem Sound.free (member : alloc ∈ p.live) :
    ∃ blocks' free', Sound start ⟨freeUnlocked p.heap alloc.ptr, p.live.filter (·.ptr ≠ alloc.ptr)⟩
        blocks' free' ∧ Frame p.heap (freeUnlocked p.heap alloc.ptr) (used blocks') := by
  obtain ⟨⟨b, size, mark⟩, among, same, _⟩ := sound.held.block_of member
  obtain ⟨there, owned⟩ := mem_used.mp among
  subst owned
  obtain ⟨blocks', free', standing, owned, frame⟩ := freeUnlocked_standing sound.standing there
  have fresh := sound.standing.shaped.payload_fresh owned
  have ptr : alloc.ptr = b + headerSize := same
  rw [ptr]
  exact ⟨blocks', free', ⟨standing, (sound.held.perm owned).erase fresh⟩, frame⟩

end

theorem overflows_iff (count size : Nat) :
    (count ≠ 0 ∧ (2 ^ 32 - 1) / count < size) ↔ 2 ^ 32 ≤ count * size := by
  rcases Nat.eq_zero_or_pos count with rfl | positive
  · simp
  · rw [Nat.div_lt_iff_lt_mul positive, mul_comm size]
    omega

/-- A call keeps the invariant and serves the program. -/
def Fulfilled (start : Nat) (p : Program) (op : Op) : Prop :=
  (∃ blocks free, Sound start (p.call op) blocks free) ∧ Served start p op

theorem Program.call_of {op : Op} {result : Nat} {heap' : Heap}
    (performed : perform p.heap op = (result, heap')) :
    p.result op = result ∧ (p.call op).heap = heap' := by
  unfold Program.call Program.result
  rw [performed]
  exact ⟨rfl, rfl⟩

theorem call_malloc {start size : Nat} {blocks : List Chunk} {free : List Nat}
    (sound : Sound start p blocks free) (bound : size ≤ maxRequest) :
    Fulfilled start p (.malloc size) := by
  obtain ⟨blocks', free', standing, frame, result⟩ := sound.malloc bound
  constructor
  · refine ⟨blocks', free', standing, ?_⟩
    change Matches (if (mallocUnlocked p.heap size).1 = 0 then p.live else _) _
    rcases result with ⟨null, held, _⟩ | ⟨block, here, other, _, _, held⟩
    · rw [if_pos null]
      exact held
    · rw [if_neg other]
      change Matches (⟨(mallocUnlocked p.heap size).1, size⟩ :: p.live) _
      rw [here]
      exact held
  · refine ⟨?_, ?_, ?_, ?_⟩
    · exact fun _ alloc member _ => frame.kept sound.held alloc member
    · exact nofun
    · exact nofun
    intro wants null
    rcases result with ⟨_, _, reason⟩ | ⟨_, _, other, _⟩
    · exact ⟨if_pos null, Or.inr (reason.resolve_left wants)⟩
    · exact absurd null other

theorem call_free {start ptr : Nat} {blocks : List Chunk} {free : List Nat}
    (sound : Sound start p blocks free) (allowed : Held p ptr) : Fulfilled start p (.free ptr) := by
  have served : (∀ alloc ∈ p.live, alloc ∈ p.live.filter (·.ptr ≠ ptr) →
      ∀ i < alloc.size, (freeUnlocked p.heap ptr).mem (alloc.ptr + i) =
        p.heap.mem (alloc.ptr + i)) → Served start p (.free ptr) := by
    intro kept
    refine ⟨fun _ => kept, ?_, ?_, fun wants => absurd rfl wants⟩
    · exact nofun
    · exact nofun
  rcases allowed with rfl | member
  · have nothing : freeUnlocked p.heap 0 = p.heap := rfl
    constructor
    · refine ⟨blocks, free, ?_, ?_⟩
      · exact sound.standing
      change Matches (p.live.filter (·.ptr ≠ 0)) _
      rw [sound.filter_null]
      exact sound.held
    · exact served (fun _ _ _ _ _ => by rw [nothing])
  · obtain ⟨alloc, among, rfl⟩ := mem_map.mp member
    obtain ⟨blocks', free', sound', frame⟩ := sound.free among
    exact ⟨⟨blocks', free', sound'⟩,
      served (fun other _ still => frame.kept sound'.held other still)⟩

theorem call_calloc {start count size : Nat} {blocks : List Chunk} {free : List Nat}
    (sound : Sound start p blocks free) (allowed : Allowed p (.calloc count size)) :
    Fulfilled start p (.calloc count size) := by
  obtain ⟨_, _, bound⟩ := allowed
  rcases lt_or_ge (count * size) (2 ^ 32) with fits | overflows
  · -- the product is the size that is asked for
    have request : count * size ≤ maxRequest := by omega
    have performed : perform p.heap (.calloc count size) =
        ((mallocUnlocked p.heap (count * size)).1,
          if (mallocUnlocked p.heap (count * size)).1 ≠ 0 then
            clear (mallocUnlocked p.heap (count * size)).2
              (mallocUnlocked p.heap (count * size)).1 (count * size)
          else (mallocUnlocked p.heap (count * size)).2) := by
      change calloc p.heap count size = _
      unfold calloc
      rw [if_neg (fun absurd' => by
        have wraps := (overflows_iff count size).mp absurd'
        omega), Nat.mod_eq_of_lt fits]
      rfl
    obtain ⟨blocks', free', standing, frame, refused | handed⟩ := sound.malloc request
    · obtain ⟨null, held, reason⟩ := refused
      rw [null] at performed
      obtain ⟨result, heap'⟩ := Program.call_of performed
      have live' : (p.call (.calloc count size)).live = p.live := if_pos result
      constructor
      · refine ⟨blocks', free', ?_, ?_⟩
        · rw [heap']
          exact standing
        · rw [live']
          exact held
      · refine ⟨?_, ?_, ?_, ?_⟩
        · intro _ alloc member _
          rw [heap']
          exact frame.kept sound.held alloc member
        · exact fun _ _ _ other => absurd result other
        · exact nofun
        · intro wants _
          rw [heap']
          exact ⟨live', Or.inr (reason.resolve_left wants)⟩
    · obtain ⟨block, here, other, room, owned, held⟩ := handed
      rw [if_pos other] at performed
      obtain ⟨result, heap'⟩ := Program.call_of performed
      have live' : (p.call (.calloc count size)).live =
          ⟨payload block, count * size⟩ :: p.live := by
        change (if p.result (.calloc count size) = 0 then _ else _) = _
        rw [result, if_neg other, here]
      obtain ⟨inBlocks, others⟩ := standing.shaped.others owned
      have only : ∀ x, x < payload block ∨ payload block + block.size ≤ x →
          (clear (mallocUnlocked p.heap (count * size)).2 (mallocUnlocked p.heap (count * size)).1
            (count * size)).mem x = (mallocUnlocked p.heap (count * size)).2.mem x := by
        intro x outside
        exact if_neg (by omega)
      constructor
      · refine ⟨blocks', free', ?_, ?_⟩
        · rw [heap']
          exact standing.written inBlocks only
        · rw [live']
          exact held
      refine ⟨?_, ?_, ?_, ?_⟩
      · intro _ alloc member _
        rw [heap']
        exact (frame.trans (standing.written_frame inBlocks only others)).kept
          sound.held alloc member
      · intro count' size' same _ i below
        cases same
        rw [heap', result]
        exact if_pos (by omega)
      · exact nofun
      · intro _ null
        rw [result] at null
        exact absurd null other
  · -- what a size cannot say is refused
    have performed : perform p.heap (.calloc count size) = (0, p.heap) := by
      change calloc p.heap count size = _
      unfold calloc
      rw [if_pos ((overflows_iff count size).mpr overflows)]
    obtain ⟨result, heap'⟩ := Program.call_of performed
    have live' : (p.call (.calloc count size)).live = p.live := if_pos result
    constructor
    · refine ⟨blocks, free, ?_, ?_⟩
      · rw [heap']
        exact sound.standing
      · rw [live']
        exact sound.held
    · refine ⟨?_, ?_, ?_, ?_⟩
      · intro _ _ _ _ _ _
        rw [heap']
      · exact fun _ _ _ other => absurd result other
      · exact nofun
      · exact fun _ _ => ⟨live', Or.inl overflows⟩

theorem call_store {start a : Nat} {byte : UInt8} {blocks : List Chunk} {free : List Nat}
    (sound : Sound start p blocks free) (allowed : Allowed p (.store a byte)) :
    Fulfilled start p (.store a byte) := by
  obtain ⟨alloc, member, low, high⟩ := allowed
  obtain ⟨block, among, same, room⟩ := sound.held.block_of member
  constructor
  · refine ⟨blocks, free, ?_, sound.held⟩
    refine sound.standing.written (mem_used.mp among).1 ?_
    intro x outside
    exact Lib.Bytes.putBytes_apart (by rw [length_singleton]; omega) _
  · refine ⟨fun no => absurd rfl (no a byte), ?_, ?_, fun wants => absurd rfl wants⟩
    · exact nofun
    · exact nofun

theorem call_realloc_null {start size : Nat} {blocks : List Chunk} {free : List Nat}
    (sound : Sound start p blocks free) (bound : size ≤ maxRequest) :
    Fulfilled start p (.realloc 0 size) := by
  have performed : perform p.heap (.realloc 0 size) = perform p.heap (.malloc size) := rfl
  have result : p.result (.realloc 0 size) = p.result (.malloc size) := rfl
  have same : p.call (.realloc 0 size) = p.call (.malloc size) := by
    unfold Program.call
    rw [performed, result]
    refine congrArg _ ?_
    change (if size = 0 then _ else if _ = 0 then _ else _) = if _ = 0 then _ else _
    rw [sound.filter_null]
    by_cases nothing : size = 0
    · subst nothing
      rw [if_pos rfl, if_pos (show p.result (.malloc 0) = 0 from rfl)]
    · rw [if_neg nothing]
  obtain ⟨kept, served⟩ := call_malloc sound bound
  unfold Fulfilled
  rw [same]
  refine ⟨kept, ?_, ?_, ?_, ?_⟩
  · rw [same]
    exact fun _ => served.kept nofun
  · exact nofun
  · intro ptr size' equal _ alloc member here
    cases equal
    exact absurd here (sound.ptr_positive member)
  · rw [same]
    exact served.refused

theorem call_realloc_zero {start ptr : Nat} {blocks : List Chunk}
    {free : List Nat} (sound : Sound start p blocks free) (allowed : Held p ptr)
    (other : ptr ≠ 0) : Fulfilled start p (.realloc ptr 0) := by
  have performed : perform p.heap (.realloc ptr 0) = perform p.heap (.free ptr) := by
    change realloc p.heap ptr 0 = _
    unfold realloc
    rw [if_neg other, if_pos rfl]
    rfl
  have result : p.result (.realloc ptr 0) = 0 := congrArg Prod.fst performed
  have same : p.call (.realloc ptr 0) = p.call (.free ptr) := by
    unfold Program.call
    rw [performed]
    rfl
  obtain ⟨kept, served⟩ := call_free sound allowed
  unfold Fulfilled
  rw [same]
  refine ⟨kept, ?_, ?_, ?_, fun wants => absurd rfl wants⟩
  · rw [same]
    exact fun _ => served.kept nofun
  · exact nofun
  · exact fun _ _ _ moved => absurd result moved

section

variable {start size : Nat} {blocks : List Chunk} {free : List Nat}
  (sound : Sound start p blocks free) {block : Chunk} (owned : block ∈ used blocks)
  (here : alloc.ptr = payload block) (some' : size ≠ 0) (member : alloc ∈ p.live)
include sound owned here some' member

theorem call_realloc_stays (room : size ≤ block.size)
    (performed : perform p.heap (.realloc alloc.ptr size) = (alloc.ptr, p.heap)) :

    Fulfilled start p (.realloc alloc.ptr size) := by
  obtain ⟨result, heap'⟩ := Program.call_of performed
  have live' : (p.call (.realloc alloc.ptr size)).live =
      ⟨alloc.ptr, size⟩ :: p.live.filter (·.ptr ≠ alloc.ptr) := by
    change (if size = 0 then _ else if p.result (.realloc alloc.ptr size) = 0 then _ else _) = _
    rw [if_neg some', result, if_neg (sound.ptr_positive member)]
  have split := perm_cons_erase owned
  have fresh := sound.standing.shaped.payload_fresh split
  constructor
  · refine ⟨blocks, free, ?_, ?_⟩
    · rw [heap']
      exact sound.standing
    · rw [live', here]
      exact (((sound.held.perm split).erase fresh).cons fresh room).perm split.symm
  · refine ⟨?_, ?_, ?_, ?_⟩
    · intro _ _ _ _ _ _
      rw [heap']
    · exact nofun
    · intro ptr size' same _ _ _ _ i _
      cases same
      rw [heap', result]
    · intro _ null
      rw [result] at null
      exact absurd null (sound.ptr_positive member)

/-- A block that is too small is copied to a new one and released, if there is a
new one. -/
theorem call_realloc_moves (small : block.size < size) (bound : size ≤ maxRequest)
    (performed : perform p.heap (.realloc alloc.ptr size) =
      if (mallocUnlocked p.heap size).1 ≠ 0 then
        ((mallocUnlocked p.heap size).1, freeUnlocked (copy (mallocUnlocked p.heap size).2
          (mallocUnlocked p.heap size).1 alloc.ptr
          ((mallocUnlocked p.heap size).2.header block.addr).size) alloc.ptr)
      else mallocUnlocked p.heap size) : Fulfilled start p (.realloc alloc.ptr size) := by
  obtain ⟨blocks₁, free₁, standing, frame, refused | handed⟩ := sound.malloc bound
  · obtain ⟨null, held, reason⟩ := refused
    rw [if_neg (fun other => other null)] at performed
    have pair : mallocUnlocked p.heap size = (0, (mallocUnlocked p.heap size).2) :=
      Prod.ext null rfl
    obtain ⟨result, heap'⟩ := Program.call_of (performed.trans pair)
    have live' : (p.call (.realloc alloc.ptr size)).live = p.live := by
      change (if size = 0 then _ else if p.result (.realloc alloc.ptr size) = 0 then _ else _) = _
      rw [if_neg some', if_pos result]
    constructor
    · refine ⟨blocks₁, free₁, ?_, ?_⟩
      · rw [heap']
        exact standing
      · rw [live']
        exact held
    · refine ⟨?_, ?_, ?_, ?_⟩
      · intro _ other there _
        rw [heap']
        exact frame.kept sound.held other there
      · exact nofun
      · exact fun _ _ _ moved => absurd result moved
      · intro _ _
        rw [heap']
        exact ⟨live', Or.inr (reason.resolve_left some')⟩
  · obtain ⟨new, there, other, room, owned₁, held⟩ := handed
    obtain ⟨inNew, others⟩ := standing.shaped.others owned₁
    have old := others block owned
    have has : ((mallocUnlocked p.heap size).2.header block.addr).size = block.size :=
      (standing.shaped.heads block old.1).1
    rw [has, there] at performed
    -- the copy stays in the new block
    have only : ∀ x, x < payload new ∨ payload new + new.size ≤ x →
        (copy (mallocUnlocked p.heap size).2 (payload new) alloc.ptr block.size).mem x =
          (mallocUnlocked p.heap size).2.mem x := by
      intro x outside
      exact if_neg (by omega)
    have distinct : payload new ≠ alloc.ptr := by
      intro same
      have fresh := standing.shaped.payload_fresh owned₁
      exact fresh (mem_map.mpr ⟨block, owned, by rw [← here, same]⟩)
    have copied : Sound start ⟨copy (mallocUnlocked p.heap size).2 (payload new)
        alloc.ptr block.size, ⟨payload new, size⟩ :: p.live⟩ blocks₁ free₁ :=
      ⟨standing.written inNew only, held⟩
    obtain ⟨blocks', free', sound', frame'⟩ := copied.free (mem_cons_of_mem _ member)
    have filtered : (⟨payload new, size⟩ :: p.live : List Alloc).filter (·.ptr ≠ alloc.ptr) =
        ⟨payload new, size⟩ :: p.live.filter (·.ptr ≠ alloc.ptr) :=
      filter_cons_of_pos (decide_eq_true distinct)
    rw [filtered] at sound'
    obtain ⟨result, heap'⟩ := Program.call_of performed
    have live' : (p.call (.realloc alloc.ptr size)).live =
        ⟨payload new, size⟩ :: p.live.filter (·.ptr ≠ alloc.ptr) := by
      change (if size = 0 then _ else if p.result (.realloc alloc.ptr size) = 0 then _ else _) = _
      rw [if_neg some', result, if_neg (there ▸ other)]
    have after := frame'.kept sound'.held
    constructor
    · refine ⟨blocks', free', ?_, ?_⟩
      · rw [heap']
        exact sound'.standing
      · rw [live']
        exact sound'.held
    refine ⟨?_, ?_, ?_, ?_⟩
    · intro _ alloc' among still i below
      rw [live'] at still
      rw [heap', after alloc' still i below]
      exact (frame.trans (standing.written_frame inNew only others)).kept
        sound.held alloc' among i below
    · exact nofun
    · intro ptr size' same _ alloc' among equal i below
      cases same
      have fits := sound.held.fits alloc' among block owned (equal.trans here)
      rw [heap', result]
      refine (after _ mem_cons_self i (by dsimp only; omega)).trans ?_
      have moved : (copy (mallocUnlocked p.heap size).2 (payload new) alloc.ptr block.size).mem
          (payload new + i) = (mallocUnlocked p.heap size).2.mem (alloc.ptr + i) := by
        unfold copy
        dsimp only
        rw [if_pos (by omega), Nat.add_sub_cancel_left]
      refine moved.trans ?_
      have source := frame.kept sound.held alloc' among i (by omega)
      rw [equal] at source
      exact source
    · intro _ null
      rw [result, ← there] at null
      exact absurd null other

end

theorem call_realloc {start ptr size : Nat} {blocks : List Chunk} {free : List Nat}
    (sound : Sound start p blocks free) (allowed : Allowed p (.realloc ptr size)) :
    Fulfilled start p (.realloc ptr size) := by
  obtain ⟨held, bound⟩ := allowed
  by_cases null : ptr = 0
  · subst null
    exact call_realloc_null sound (le_of_lt bound)
  by_cases nothing : size = 0
  · subst nothing
    exact call_realloc_zero sound held null
  obtain ⟨alloc, member, rfl⟩ := mem_map.mp (held.resolve_left null)
  obtain ⟨block, owned, here, _⟩ := sound.held.block_of member
  obtain ⟨inBlocks, isUsed⟩ := mem_used.mp owned
  have addr : alloc.ptr - headerSize = block.addr := by
    rw [here]
    exact Nat.add_sub_cancel ..
  obtain ⟨has, magic⟩ := sound.standing.shaped.heads block inBlocks
  rw [isUsed] at magic
  have performed : perform p.heap (.realloc alloc.ptr size) =
      if size ≤ block.size then (alloc.ptr, p.heap)
      else if (mallocUnlocked p.heap size).1 ≠ 0 then
        ((mallocUnlocked p.heap size).1, freeUnlocked (copy (mallocUnlocked p.heap size).2
            (mallocUnlocked p.heap size).1 alloc.ptr
            ((mallocUnlocked p.heap size).2.header block.addr).size) alloc.ptr)
      else mallocUnlocked p.heap size := by
    change realloc p.heap alloc.ptr size = _
    unfold realloc
    rw [if_neg null, if_neg nothing]
    dsimp only
    rw [addr, magic, has, if_neg (fun absurd' => absurd' rfl)]
  rcases lt_or_ge block.size size with small | room
  · rw [if_neg (Nat.not_le_of_lt small)] at performed
    exact call_realloc_moves sound owned here nothing member small (le_of_lt bound) performed
  · rw [if_pos room] at performed
    exact call_realloc_stays sound owned here nothing member room performed

/-! ### Every run -/

theorem call_sound {start : Nat} {p : Program} {blocks : List Chunk} {free : List Nat}
    (sound : Sound start p blocks free) : ∀ op, Allowed p op → Fulfilled start p op
  | .malloc _, allowed => call_malloc sound (le_of_lt allowed)
  | .free _, allowed => call_free sound allowed
  | .calloc _ _, allowed => call_calloc sound allowed
  | .realloc _ _, allowed => call_realloc sound allowed
  | .store _ _, allowed => call_store sound allowed

theorem run_sound {start : Nat} {ops : List Op} {blocks : List Chunk} {free : List Nat}
    (sound : Sound start p blocks free) (permitted : Permitted p ops) :
    ∃ blocks' free', Sound start (p.run ops) blocks' free' := by
  induction ops generalizing p blocks free with
  | nil => exact ⟨blocks, free, sound⟩
  | cons op _ ih =>
    obtain ⟨⟨_, _, sound'⟩, _⟩ := call_sound sound op permitted.1
    exact ih sound' permitted.2

/-- A program before its first call. -/
def newProgram (mem : Nat → UInt8) (start : Nat) (granted : Nat → Bool)
    (fill : Nat → Nat → UInt8) : Program :=
  ⟨unused mem start granted fill, []⟩

theorem newProgram_sound {mem : Nat → UInt8} {start : Nat} {granted : Nat → Bool}
    {fill : Nat → Nat → UInt8} (low : 0 < start)
    (first : (sbrk (unused mem start granted fill) sbrkAlign).1 ≠ none) :
    Sound start (newProgram mem start granted fill) [] [] := by
  have room : start ≤ brkCap := by
    unfold sbrk at first
    rw [if_neg (by decide)] at first
    dsimp only at first
    split at first
    · next allowed =>
        rw [Bool.and_eq_true, decide_eq_true_eq] at allowed
        exact le_trans (Nat.le_add_right ..) allowed.2
    · exact absurd rfl first
  constructor
  · constructor
    · refine ⟨rfl, low, room, ?_, trivial, rfl, List.Perm.refl _⟩
      intro block member
      cases member
    · exact fun _ => ⟨rfl, rfl, first⟩
  · refine ⟨List.Perm.refl _, ?_⟩
    intro alloc member
    cases member

/-- The contract of the heap: over every permitted sequence of calls it is intact,
and every call that is allowed next serves the program. -/
theorem heap_contract (mem : Nat → UInt8) (start : Nat) (granted : Nat → Bool)
    (fill : Nat → Nat → UInt8) (ops : List Op) (low : 0 < start)
    (first : (sbrk (unused mem start granted fill) sbrkAlign).1 ≠ none)
    (permitted : Permitted (newProgram mem start granted fill) ops) :
    (∃ blocks free, Intact start ((newProgram mem start granted fill).run ops) blocks free) ∧
      ∀ op, Allowed ((newProgram mem start granted fill).run ops) op →
        Served start ((newProgram mem start granted fill).run ops) op := by
  obtain ⟨blocks, free, sound⟩ := run_sound (newProgram_sound low first) permitted
  exact ⟨⟨blocks, free, sound.intact⟩, fun op allowed => (call_sound sound op allowed).2⟩

/-- Growth in front of an older block, a release between the two, and a block that
is moved. -/
def sampleCalls : List Op :=
  [.malloc 100, .store 0x1000000C 7, .malloc 5000, .free 0x1000100C, .calloc 4 8,
    .realloc 0x1000000C 300, .free 0]

def sampleProgram : Program :=
  newProgram (fun _ => 0) 0x10000000 (fun _ => true) (fun _ _ => 0)

theorem heap_contract_sample :
    (∃ blocks free, Intact 0x10000000 (sampleProgram.run sampleCalls) blocks free) ∧ ∀ op, Allowed
      (sampleProgram.run sampleCalls) op → Served 0x10000000 (sampleProgram.run sampleCalls) op :=
  heap_contract _ _ _ _ _ (by decide) (by decide +kernel) (by decide +kernel)

end MainDob.Libc
