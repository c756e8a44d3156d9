/-
Purpose: The blocks of the heap of a program. From its start to the break the heap is tiled by
  headers and payloads, and the free list is threaded through exactly the free ones; blocks can be
  exchanged in it, and a block that is taken whole or split keeps it so, with no payload of
  another used block touched.
Main exports: Shaped, Frame, used
-/
import MainDob.Lib.Intrusive
import MainDob.Lib.Tiling
import MainDob.Libc.Malloc
import Mathlib.Data.List.Perm.Basic

namespace MainDob.Libc

open Lib (Chunk Tiled Seg)
open Lib.Bytes (getLe getLe_congr getLe_putBytes getLe_putBytes_apart putBytes_apart length_leBytes)
open List

/-! ### Headers in memory -/

/-- The headers at two addresses do not overlap. -/
def Apart (a b : Nat) : Prop := a + headerSize ≤ b ∨ b + headerSize ≤ a

variable {heap' : Heap}

theorem header_congr {heap : Heap} {a : Nat} (same : ∀ x, a ≤ x →
    x < a + headerSize → heap'.mem x = heap.mem x) : heap'.header a = heap.header a := by
  unfold headerSize at same
  refine Header.mk.injEq .. ▸ ⟨?_, ?_, ?_⟩
  · exact getLe_congr (fun x low high => same x low (by omega))
  · exact getLe_congr (fun x low high => same x (by omega) (by omega))
  · exact getLe_congr (fun x low high => same x (by omega) (by omega))

section

variable (heap : Heap) (b value : Nat)

theorem setSize_self (small : value < 2 ^ 32) :
    (heap.setSize b value).header b = { heap.header b with size := value } := by
  unfold Heap.header Heap.setSize
  refine Header.mk.injEq .. ▸ ⟨?_, ?_, ?_⟩
  · rw [getLe_putBytes]
    exact Nat.mod_eq_of_lt small
  · exact getLe_putBytes_apart (Or.inr (by rw [length_leBytes])) ..
  · exact getLe_putBytes_apart (Or.inr (by rw [length_leBytes]; omega)) ..

theorem setNext_self (small : value < 2 ^ 32) :
    (heap.setNext b value).header b = { heap.header b with next := value } := by
  unfold Heap.header Heap.setNext
  refine Header.mk.injEq .. ▸ ⟨?_, ?_, ?_⟩
  · exact getLe_putBytes_apart (Or.inl (le_refl _)) ..
  · rw [getLe_putBytes]
    exact Nat.mod_eq_of_lt small
  · exact getLe_putBytes_apart (Or.inr (by rw [length_leBytes])) ..

theorem setMagic_self (small : value < 2 ^ 32) :
    (heap.setMagic b value).header b = { heap.header b with magic := value } := by
  unfold Heap.header Heap.setMagic
  refine Header.mk.injEq .. ▸ ⟨?_, ?_, ?_⟩
  · exact getLe_putBytes_apart (Or.inl (by omega)) ..
  · exact getLe_putBytes_apart (Or.inl (by omega)) ..
  · rw [getLe_putBytes]
    exact Nat.mod_eq_of_lt small

/-- A byte outside a header. -/
def Outside (b x : Nat) : Prop := x < b ∨ b + headerSize ≤ x

variable {b} {x : Nat}

theorem setSize_mem (outside : Outside b x) : (heap.setSize b value).mem x = heap.mem x := by
  unfold Outside headerSize at outside
  exact putBytes_apart (by rw [length_leBytes]; omega) _

theorem setNext_mem (outside : Outside b x) : (heap.setNext b value).mem x = heap.mem x := by
  unfold Outside headerSize at outside
  exact putBytes_apart (by rw [length_leBytes]; omega) _

theorem setMagic_mem (outside : Outside b x) : (heap.setMagic b value).mem x = heap.mem x := by
  unfold Outside headerSize at outside
  exact putBytes_apart (by rw [length_leBytes]; omega) _

end

theorem Apart.outside {a b x : Nat} (apart : Apart a b) (low : a ≤ x)
    (high : x < a + headerSize) : Outside b x := by
  unfold Apart at apart
  unfold Outside
  omega

section

variable {heap : Heap} {a b value : Nat} (apart : Apart a b)

include apart

theorem setSize_apart : (heap.setSize b value).header a = heap.header a :=
  header_congr (fun _ low high => setSize_mem heap value (apart.outside low high))

theorem setNext_apart : (heap.setNext b value).header a = heap.header a :=
  header_congr (fun _ low high => setNext_mem heap value (apart.outside low high))

theorem setMagic_apart : (heap.setMagic b value).header a = heap.header a :=
  header_congr (fun _ low high => setMagic_mem heap value (apart.outside low high))

end

theorem setLink_mem {heap : Heap} {pp : Option Nat} {b x : Nat}
    (outside : ∀ p, pp = some p → Outside p x) : (heap.setLink pp b).mem x = heap.mem x := by
  cases pp with
  | none => rfl
  | some p => exact setNext_mem heap b (outside p rfl)

theorem setLink_freeList (heap : Heap) (pp : Option Nat) (b : Nat) :
    (heap.setLink pp b).freeList = if pp = none then b else heap.freeList := by
  cases pp <;> rfl

theorem setLink_brk (heap : Heap) (pp : Option Nat) (b : Nat) :
    (heap.setLink pp b).brk = heap.brk := by
  cases pp <;> rfl

/-! ### The shape of the heap -/

/-- A pointer, `NULL` being none. -/
def link (b : Nat) : Option Nat := if b = 0 then none else some b

/-- The block behind another one in the free list. -/
def Heap.after (heap : Heap) (b : Nat) : Option Nat := link (heap.header b).next

/-- The mark of a block. -/
def magicOf (used : Bool) : Nat := if used then blockMagicAlloc else blockMagicFree

/-- The blocks that belong to the program. -/
def used (blocks : List Chunk) : List Chunk := blocks.filter (·.used)

/-- The addresses of the other ones. -/
def freeAddrs (blocks : List Chunk) : List Nat :=
  (blocks.filter (!·.used)).map Chunk.addr

/-- The heap consists of the blocks, and `free` is its free list. -/
structure Shaped (heap : Heap) (start : Nat) (blocks : List Chunk)
    (free : List Nat) : Prop where
  tiled : Tiled headerSize start blocks heap.brk
  low : 0 < start
  high : heap.brk ≤ brkCap
  heads : ∀ block ∈ blocks, (heap.header block.addr).size = block.size ∧
    (heap.header block.addr).magic = magicOf block.used
  linked : Seg heap.after free none
  first : link heap.freeList = free.head?
  exact : free.Perm (freeAddrs blocks)

/-- The payloads of the blocks keep their contents. -/
def Frame (heap heap' : Heap) (blocks : List Chunk) : Prop :=
  ∀ block ∈ blocks, ∀ x, block.addr + headerSize ≤ x →
    x < block.addr + headerSize + block.size → heap'.mem x = heap.mem x

theorem Frame.refl (heap : Heap) (blocks : List Chunk) : Frame heap heap blocks :=
  fun _ _ _ _ _ => rfl

theorem Frame.trans {a b c : Heap} {blocks : List Chunk} (first : Frame a b blocks)
    (second : Frame b c blocks) : Frame a c blocks :=
  fun block member x low high =>
    (second block member x low high).trans (first block member x low high)

theorem header_positive : 0 < headerSize := by decide

theorem getLe_four_lt (a : Nat) (mem : Nat → UInt8) : getLe 4 a mem < 2 ^ 32 := by
  have b0 := (mem a).toNat_lt
  have b1 := (mem (a + 1)).toNat_lt
  have b2 := (mem (a + 1 + 1)).toNat_lt
  have b3 := (mem (a + 1 + 1 + 1)).toNat_lt
  simp only [getLe]
  omega

/-- Headers at these addresses are the same or apart. -/
def Spread (addrs : List Nat) : Prop :=
  ∀ a ∈ addrs, ∀ b ∈ addrs, a = b ∨ Apart a b

section

variable {heap : Heap} {addrs : List Nat} {a b value : Nat} (spread : Spread addrs)
  (here : a ∈ addrs) (there : b ∈ addrs) (small : value < 2 ^ 32)

include spread here there small

theorem setSize_header : (heap.setSize b value).header a =
    if a = b then { heap.header a with size := value } else heap.header a := by
  split
  · next same =>
      subst same
      exact setSize_self heap a value small
  · next other => exact setSize_apart ((spread a here b there).resolve_left other)

theorem setNext_header : (heap.setNext b value).header a =
    if a = b then { heap.header a with next := value } else heap.header a := by
  split
  · next same =>
      subst same
      exact setNext_self heap a value small
  · next other => exact setNext_apart ((spread a here b there).resolve_left other)

theorem setMagic_header : (heap.setMagic b value).header a =
    if a = b then { heap.header a with magic := value } else heap.header a := by
  split
  · next same =>
      subst same
      exact setMagic_self heap a value small
  · next other => exact setMagic_apart ((spread a here b there).resolve_left other)

end

theorem setLink_header {heap : Heap} {addrs : List Nat} {a value : Nat}
    (spread : Spread addrs) (here : a ∈ addrs) {pp : Option Nat}
    (there : ∀ p, pp = some p → p ∈ addrs) (small : value < 2 ^ 32) :
    (heap.setLink pp value).header a =
      if pp = some a then { heap.header a with next := value } else heap.header a := by
  cases pp with
  | none => rw [if_neg (by simp)]; rfl
  | some p =>
    have inside := there p rfl
    refine (setNext_header spread here inside small).trans ?_
    by_cases same : a = p
    · rw [if_pos same, if_pos (by rw [same])]
    · rw [if_neg same, if_neg (fun other => same (Option.some.inj other).symm)]

variable {block : Chunk} {front back : List Nat}

namespace Shaped

variable {heap : Heap} {start : Nat} {blocks : List Chunk} {free : List Nat}
  (shaped : Shaped heap start blocks free)

include shaped

theorem spread : Spread (blocks.map Chunk.addr) := by
  intro a here b there
  obtain ⟨block, member, rfl⟩ := mem_map.mp here
  obtain ⟨other, member', rfl⟩ := mem_map.mp there
  rcases shaped.tiled.apart member member' with same | below | above
  · exact Or.inl (by rw [same])
  · exact Or.inr (Or.inl (by omega))
  · exact Or.inr (Or.inr (by omega))

theorem free_block {a : Nat} (member : a ∈ free) :
    ∃ block ∈ blocks, block.used = false ∧ block.addr = a := by
  obtain ⟨block, there, same⟩ := mem_map.mp ((shaped.exact.mem_iff).mp member)
  obtain ⟨among, unused⟩ := mem_filter.mp there
  exact ⟨block, among, by simpa using unused, same⟩

theorem free_addr {a : Nat} (member : a ∈ free) : a ∈ blocks.map Chunk.addr := by
  obtain ⟨block, among, _, same⟩ := shaped.free_block member
  exact mem_map.mpr ⟨block, among, same⟩

theorem addr_bounds {a : Nat} (member : a ∈ blocks.map Chunk.addr) : a ≠ 0 ∧ a < 2 ^ 32 := by
  obtain ⟨block, among, rfl⟩ := mem_map.mp member
  have low := shaped.low
  have high : heap.brk ≤ 0x40000000 := shaped.high
  obtain ⟨least, most⟩ := shaped.tiled.bounds among
  constructor <;> omega

theorem free_nodup : free.Nodup := by
  refine shaped.exact.nodup_iff.mpr ?_
  exact (filter_sublist.map Chunk.addr).nodup (shaped.tiled.addrs_nodup header_positive)

theorem split_free {a : Nat} (member : a ∈ free) : ∃ before size after,
    blocks = before ++ ⟨a, size, false⟩ :: after ∧ size = (heap.header a).size := by
  obtain ⟨⟨_, size, _⟩, among, unused, same⟩ := shaped.free_block member
  obtain ⟨before, after, split⟩ := append_of_mem among
  subst unused same
  exact ⟨before, size, after, split, (shaped.heads _ among).1.symm⟩

theorem outside (member : block ∈ blocks) {a : Nat} (there : a ∈ blocks.map Chunk.addr) {x : Nat}
    (low : block.addr + headerSize ≤ x)
    (high : x < block.addr + headerSize + block.size) : Outside a x := by
  obtain ⟨other, among, rfl⟩ := mem_map.mp there
  rcases shaped.tiled.apart member among with rfl | below | above
  · exact Or.inr low
  · exact Or.inl (by omega)
  · exact Or.inr (by omega)

theorem pred_addr (split : free = front ++ back) {p : Nat}
    (last : front.getLast? = some p) : p ∈ blocks.map Chunk.addr := by
  refine shaped.free_addr ?_
  rw [split]
  exact mem_append_left _ (mem_of_getLast? last)

end Shaped

/-! ### Exchanging blocks -/

theorem freeAddrs_append (blocks more : List Chunk) :
    freeAddrs (blocks ++ more) = freeAddrs blocks ++ freeAddrs more := by
  unfold freeAddrs
  rw [filter_append, map_append]

theorem middle_perm {α : Type} (front middle back : List α) :
    (front ++ middle ++ back).Perm (middle ++ (front ++ back)) := by
  rw [← append_assoc]
  exact perm_append_comm.append_right back

variable {before after : List Chunk}

theorem Shaped.exchange {heap : Heap} {start : Nat} {old new : List Chunk} {part part' : List Nat}
    (shaped : Shaped heap start (before ++ old ++ after) (front ++ part ++ back))
    (tiled : Tiled headerSize start (before ++ new ++ after) heap'.brk) (high : heap'.brk ≤ brkCap)
    (kept : ∀ block ∈ before ++ after,
      (heap'.header block.addr).size = (heap.header block.addr).size ∧
      (heap'.header block.addr).magic = (heap.header block.addr).magic)
    (heads : ∀ block ∈ new, (heap'.header block.addr).size = block.size ∧
      (heap'.header block.addr).magic = magicOf block.used)
    (inner : ∀ a ∈ front.dropLast, heap'.after a = heap.after a)
    (edge : ∀ last, front.getLast? = some last → heap'.after last = (part' ++ back).head?)
    (fresh : Seg heap'.after part' back.head?) (outer : ∀ a ∈ back, heap'.after a = heap.after a)
    (first : link heap'.freeList = (front ++ part' ++ back).head?)
    (exact' : part.Perm (freeAddrs old)) (exact'' : part'.Perm (freeAddrs new)) :

    Shaped heap' start (before ++ new ++ after) (front ++ part' ++ back) where
  tiled := tiled
  low := shaped.low
  high := high
  heads := by
    intro block member
    have elsewhere : ∀ {other : Chunk}, other ∈ before ++ after →
        (heap'.header other.addr).size = other.size ∧
          (heap'.header other.addr).magic = magicOf other.used := by
      intro other there
      obtain ⟨size, magic⟩ := kept other there
      rw [size, magic]
      refine shaped.heads other ?_
      rcases mem_append.mp there with left | right
      · exact mem_append_left _ (mem_append_left _ left)
      · exact mem_append_right _ right
    rcases mem_append.mp member with left | right
    · rcases mem_append.mp left with left | here
      · exact elsewhere (mem_append_left _ left)
      · exact heads block here
    · exact elsewhere (mem_append_right _ right)
  linked := shaped.linked.splice inner edge fresh outer
  first := first
  exact := by
    have old' := shaped.exact
    rw [freeAddrs_append, freeAddrs_append] at old' ⊢
    have rest : (front ++ back).Perm (freeAddrs before ++ freeAddrs after) := by
      have both := ((middle_perm front part back).symm.trans old').trans
        (middle_perm (freeAddrs before) (freeAddrs old) (freeAddrs after))
      exact (perm_append_left_iff _).mp (both.trans (exact'.symm.append_right _))
    refine (middle_perm front part' back).trans ?_
    refine (exact''.append rest).trans ?_
    exact (middle_perm (freeAddrs before) (freeAddrs new) (freeAddrs after)).symm

theorem used_append (blocks more : List Chunk) : used (blocks ++ more) = used blocks ++ used more :=
  filter_append ..

theorem mem_used {blocks : List Chunk} : block ∈ used blocks ↔ block ∈ blocks ∧ block.used = true :=
  mem_filter

/-- The free list leads from `pp` to `value` now; besides that link only bytes of
one block have changed. -/
structure Relinked (heap heap' : Heap) (blocks : List Chunk) (block : Chunk)
    (pp : Option Nat) (value : Nat) : Prop where
  others : ∀ a ∈ blocks.map Chunk.addr, a ≠ block.addr → heap'.header a =
    if pp = some a then { heap.header a with next := value } else heap.header a
  head : heap'.freeList = if pp = none then value else heap.freeList
  brk : heap'.brk = heap.brk
  mem : ∀ x, x < block.addr ∨ block.addr + headerSize + block.size ≤ x →
    (∀ p, pp = some p → Outside p x) → heap'.mem x = heap.mem x

theorem dropLast_ne_last (distinct : front.Nodup) {a last : Nat} (member : a ∈ front.dropLast)
    (ends : front.getLast? = some last) : a ≠ last := by
  rcases front.eq_nil_or_concat' with rfl | ⟨init, final, rfl⟩
  · cases ends
  rw [List.getLast?_concat] at ends
  rw [dropLast_concat] at member
  cases ends
  rintro rfl
  exact (nodup_append.mp distinct).2.2 a member a mem_cons_self rfl

theorem Shaped.relinked_frame {heap : Heap} {start : Nat} {free : List Nat} {pp : Option Nat}
    {value : Nat} (shaped : Shaped heap start (before ++ block :: after) free)
    (relinked : Relinked heap heap' (before ++ block :: after) block pp value)
    (known : ∀ p, pp = some p → p ∈ (before ++ block :: after).map Chunk.addr) :
    Frame heap heap' (used (before ++ after)) := by
  intro other member x low high
  obtain ⟨there, _⟩ := mem_used.mp member
  have among : other ∈ before ++ block :: after := by
    rcases mem_append.mp there with left | right
    · exact mem_append_left _ left
    · exact mem_append_right _ (mem_cons_of_mem _ right)
  refine relinked.mem x ?_ (fun p here => shaped.outside among (known p here) low high)
  obtain ⟨left, right⟩ := shaped.tiled.around
  rcases mem_append.mp there with first | second
  · have bound := (left.bounds first).2
    exact Or.inl (by omega)
  · have bound := (right.bounds second).1
    exact Or.inr (by omega)

theorem Shaped.relink {heap : Heap} {start : Nat} {new : List Chunk} {part part' : List Nat}
    {value : Nat} (shaped : Shaped heap start (before ++ [block] ++ after) (front ++ part ++ back))
    (relinked : Relinked heap heap' (before ++ block :: after) block front.getLast? value)
    (apart : block.addr ∉ front ++ back) (target : link value = (part' ++ back).head?)
    (tiled : Tiled headerSize start (before ++ new ++ after) heap.brk)
    (heads : ∀ other ∈ new, (heap'.header other.addr).size = other.size ∧
      (heap'.header other.addr).magic = magicOf other.used)
    (fresh : Seg heap'.after part' back.head?) (exact' : part.Perm (freeAddrs [block]))
    (exact'' : part'.Perm (freeAddrs new)) :
    Shaped heap' start (before ++ new ++ after) (front ++ part' ++ back) := by
  have whole : before ++ [block] ++ after = before ++ block :: after := by simp
  have distinct := shaped.free_nodup
  have distinct' : front.Nodup ∧ back.Nodup ∧ ∀ a ∈ front, a ∉ back := by
    obtain ⟨left, right, between⟩ := nodup_append.mp distinct
    exact ⟨(nodup_append.mp left).1, right, fun a here there =>
      between a (mem_append_left _ here) a there rfl⟩
  have addr : ∀ a ∈ front ++ back, a ∈ (before ++ block :: after).map Chunk.addr := by
    intro a member
    rw [← whole]
    refine shaped.free_addr ?_
    rcases mem_append.mp member with left | right
    · exact mem_append_left _ (mem_append_left _ left)
    · exact mem_append_right _ right
  have other : ∀ a ∈ front ++ back, a ≠ block.addr := by
    rintro a member rfl
    exact apart member
  -- only the last element of the part before gets another successor
  have same : ∀ a ∈ front ++ back, front.getLast? ≠ some a → heap'.after a = heap.after a := by
    intro a member plain
    unfold Heap.after
    rw [relinked.others a (addr a member) (other a member), if_neg plain]
  refine shaped.exchange (by rw [relinked.brk]; exact tiled)
    (by rw [relinked.brk]; exact shaped.high) ?_ heads ?_ ?_ fresh ?_ ?_ exact' exact''
  · intro there member
    have among : there ∈ before ++ block :: after := by
      rcases mem_append.mp member with left | right
      · exact mem_append_left _ left
      · exact mem_append_right _ (mem_cons_of_mem _ right)
    have new' : there.addr ≠ block.addr := by
      have around := shaped.tiled
      rw [whole] at around
      exact around.elsewhere header_positive member
    rw [relinked.others _ (mem_map.mpr ⟨there, among, rfl⟩) new']
    split <;> exact ⟨rfl, rfl⟩
  · intro a member
    refine same a (mem_append_left _ ((dropLast_sublist _).subset member)) ?_
    intro last
    exact dropLast_ne_last distinct'.1 member last rfl
  · intro last ends
    have member := mem_append_left back (mem_of_getLast? ends)
    unfold Heap.after
    rw [relinked.others last (addr last member) (other last member), if_pos ends]
    exact target
  · intro a member
    refine same a (mem_append_right _ member) ?_
    intro last
    exact distinct'.2.2 a (mem_of_getLast? last) member
  · rw [relinked.head]
    cases front with
    | nil => exact target
    | cons first =>
      exact shaped.first

/-! ### Taking a block -/

theorem magic_small : blockMagicAlloc < 2 ^ 32 ∧ blockMagicFree < 2 ^ 32 := by decide

variable {size : Nat}

theorem Shaped.around_free {heap : Heap} {start b : Nat}
    (shaped : Shaped heap start (before ++ ⟨b, size, false⟩ :: after) (front ++ b :: back)) :
    b ∉ front ++ back ∧ link (heap.header b).next = back.head? := by
  constructor
  · exact (nodup_cons.mp (nodup_middle.mp shaped.free_nodup)).1
  have behind := (Seg.append_iff.mp shaped.linked).2.1
  rw [Option.or_none] at behind
  exact behind

theorem Heap.next_small (heap : Heap) (a : Nat) : (heap.header a).next < 2 ^ 32 := getLe_four_lt _ _

theorem Shaped.take {heap : Heap} {start b : Nat}
    (shaped : Shaped heap start (before ++ ⟨b, size, false⟩ :: after) (front ++ b :: back)) :
    let heap' := ((heap.setLink front.getLast? (heap.header b).next).setMagic b
      blockMagicAlloc).setNext b 0
    Shaped heap' start (before ++ ⟨b, size, true⟩ :: after) (front ++ back) ∧
      Frame heap heap' (used (before ++ after)) := by
  intro heap'
  obtain ⟨apart, behind⟩ := shaped.around_free
  have spread := shaped.spread
  have here : b ∈ (before ++ ⟨b, size, false⟩ :: after).map Chunk.addr := by simp
  have known : ∀ p, front.getLast? = some p →
      p ∈ (before ++ ⟨b, size, false⟩ :: after).map Chunk.addr :=
    fun p last => shaped.pred_addr rfl last
  have small := heap.next_small b
  have notLast : front.getLast? ≠ some b := fun last =>
    apart (mem_append_left _ (mem_of_getLast? last))
  have relinked : Relinked heap heap' (before ++ ⟨b, size, false⟩ :: after)
      ⟨b, size, false⟩ front.getLast? (heap.header b).next := by
    refine ⟨?_, ?_, ?_, ?_⟩
    · intro a member other
      rw [setNext_header spread member here (by decide), if_neg other,
        setMagic_header spread member here magic_small.1, if_neg other,
        setLink_header spread member known small]
    · exact setLink_freeList ..
    · exact setLink_brk ..
    · intro x away outside
      have clear : Outside b x := by
        unfold Outside
        dsimp only at away
        omega
      rw [setNext_mem _ _ clear, setMagic_mem _ _ clear, setLink_mem outside]
  have taken : heap'.header b = ⟨(heap.header b).size, 0, blockMagicAlloc⟩ := by
    rw [setNext_header spread here here (by decide), if_pos rfl,
      setMagic_header spread here here magic_small.1, if_pos rfl,
      setLink_header spread here known small, if_neg notLast]
  have old := shaped.heads ⟨b, size, false⟩ (by simp)
  refine ⟨?_, shaped.relinked_frame relinked known⟩
  have shaped' : Shaped heap start (before ++ [⟨b, size, false⟩] ++ after)
      (front ++ [b] ++ back) := by simpa using shaped
  have tiled : Tiled headerSize start (before ++ [⟨b, size, true⟩] ++ after)
      heap.brk := by simpa using shaped.tiled.mark true
  have heads : ∀ other ∈ [Chunk.mk b size true], (heap'.header other.addr).size = other.size ∧
        (heap'.header other.addr).magic = magicOf other.used := by
    intro other member
    rw [mem_singleton.mp member, taken]
    exact ⟨old.1, rfl⟩
  have result : Shaped heap' start (before ++ [⟨b, size, true⟩] ++ after) (front ++ [] ++ back) :=
    shaped'.relink relinked apart behind tiled heads trivial (List.Perm.refl _) (List.Perm.refl _)
  simpa using result

theorem Shaped.spread_rest {heap : Heap} {start b : Nat} {free : List Nat}
    (shaped : Shaped heap start (before ++ ⟨b, size, false⟩ :: after) free) {rest : Nat}
    (low : b + headerSize ≤ rest) (high : rest + headerSize ≤ b + headerSize + size) :
    Spread (rest :: (before ++ ⟨b, size, false⟩ :: after).map Chunk.addr) := by
  have away : ∀ a ∈ (before ++ ⟨b, size, false⟩ :: after).map Chunk.addr,
      Apart rest a := by
    intro a member
    obtain ⟨other, among, rfl⟩ := mem_map.mp member
    have here : (⟨b, size, false⟩ : Chunk) ∈ before ++ ⟨b, size, false⟩ :: after := by simp
    rcases shaped.tiled.apart here among with rfl | below | above
    · exact Or.inr low
    · dsimp only at below
      exact Or.inl (by omega)
    · dsimp only at above
      exact Or.inr (by omega)
  intro a first c second
  rcases mem_cons.mp first with isRest | among
  · rcases mem_cons.mp second with isRest' | among'
    · exact Or.inl (isRest.trans isRest'.symm)
    · exact Or.inr (isRest ▸ away c among')
  · rcases mem_cons.mp second with isRest' | among'
    · exact Or.inr (isRest' ▸ Or.symm (away a among))
    · exact shaped.spread a among c among'

/-- The block is taken, and what it has too much becomes a free block in its
place. -/
theorem Shaped.carve {heap : Heap} {start b count : Nat}
    (shaped : Shaped heap start (before ++ ⟨b, size, false⟩ :: after) (front ++ b :: back))
    (room : count + headerSize + minAlloc ≤ size) :
    let rest := b + headerSize + count
    let heap' := ((((newBlock heap rest (size - count - headerSize)
      (heap.header b).next).setSize b count).setLink front.getLast? rest).setMagic b
        blockMagicAlloc).setNext b 0
    Shaped heap' start (before ++ [⟨b, count, true⟩,
        ⟨rest, size - count - headerSize, false⟩] ++ after)
        (front ++ [rest] ++ back) ∧
      Frame heap heap' (used (before ++ after)) := by
  intro rest heap'
  have header : headerSize = 12 := rfl
  obtain ⟨apart, behind⟩ := shaped.around_free
  have lowRest : b + headerSize ≤ rest := Nat.le_add_right ..
  have highRest : rest + headerSize ≤ b + headerSize + size := by
    omega
  have spread := shaped.spread_rest lowRest highRest
  have block : (⟨b, size, false⟩ : Chunk) ∈ before ++ ⟨b, size, false⟩ :: after := by simp
  have bounds := shaped.tiled.bounds block
  have high : heap.brk ≤ 0x40000000 := shaped.high
  have here : b ∈ rest :: (before ++ ⟨b, size, false⟩ :: after).map Chunk.addr := by simp
  have there : rest ∈ rest :: (before ++ ⟨b, size, false⟩ :: after).map Chunk.addr := mem_cons_self
  have known' : ∀ p, front.getLast? = some p →
      p ∈ (before ++ ⟨b, size, false⟩ :: after).map Chunk.addr :=
    fun p last => shaped.pred_addr rfl last
  have known : ∀ p, front.getLast? = some p →
      p ∈ rest :: (before ++ ⟨b, size, false⟩ :: after).map Chunk.addr :=
    fun p last => mem_cons_of_mem _ (known' p last)
  have small := heap.next_small b
  dsimp only at bounds
  have sizeSmall : size - count - headerSize < 2 ^ 32 := by omega
  have countSmall : count < 2 ^ 32 := by omega
  have restSmall : rest < 2 ^ 32 := by omega
  have notLast : front.getLast? ≠ some b := fun last =>
    apart (mem_append_left _ (mem_of_getLast? last))
  have other : b ≠ rest := by
    omega
  have fresh : ∀ a ∈ (before ++ ⟨b, size, false⟩ :: after).map Chunk.addr, a ≠ rest := by
    rintro _ member rfl
    obtain ⟨block', among, same⟩ := mem_map.mp member
    rcases shaped.tiled.apart block among with equal | below | above
    · rw [← equal] at same
      exact other same
    · dsimp only at below
      omega
    · dsimp only at above
      omega
  have notLast' : front.getLast? ≠ some rest := fun last => fresh rest (known' rest last) rfl
  -- the headers after the writes, one write after the other
  have header' : ∀ a ∈ rest :: (before ++ ⟨b, size, false⟩ :: after).map Chunk.addr,
      heap'.header a = if a = b then ⟨count, 0, blockMagicAlloc⟩ else if a = rest then
          ⟨size - count - headerSize, (heap.header b).next, blockMagicFree⟩
        else if front.getLast? = some a then { heap.header a with next := rest }
        else heap.header a := by
    intro a member
    rw [setNext_header spread member here (by decide),
      setMagic_header spread member here magic_small.1,
      setLink_header spread member known restSmall, setSize_header spread member here countSmall]
    unfold newBlock
    rw [setMagic_header spread member there magic_small.2, setNext_header spread member there small,
      setSize_header spread member there sizeSmall]
    by_cases isBlock : a = b
    · subst isBlock
      simp [notLast]
    · by_cases isRest : a = rest
      · subst isRest
        simp [isBlock, notLast']
      · simp [isBlock, isRest]
  have relinked : Relinked heap heap' (before ++ ⟨b, size, false⟩ :: after)
      ⟨b, size, false⟩ front.getLast? rest := by
    refine ⟨?_, ?_, ?_, ?_⟩
    · intro a member isBlock
      rw [header' a (mem_cons_of_mem _ member), if_neg isBlock, if_neg (fresh a member)]
    · exact setLink_freeList ..
    · exact setLink_brk ..
    intro x away outside
    dsimp only at away
    have clear : Outside b x := by
      unfold Outside
      omega
    have clear' : Outside rest x := by
      unfold Outside
      omega
    rw [setNext_mem _ _ clear, setMagic_mem _ _ clear, setLink_mem outside, setSize_mem _ _ clear]
    unfold newBlock
    rw [setMagic_mem _ _ clear', setNext_mem _ _ clear', setSize_mem _ _ clear']
  have restNext : heap'.after rest = back.head? := by
    unfold Heap.after
    rw [header' rest there, if_neg (Ne.symm other), if_pos rfl]
    exact behind
  have target : link rest = ([rest] ++ back).head? := by
    unfold link
    rw [if_neg (by omega)]
    rfl
  refine ⟨?_, shaped.relinked_frame relinked known'⟩
  have shaped' : Shaped heap start (before ++ [⟨b, size, false⟩] ++ after)
      (front ++ [b] ++ back) := by simpa using shaped
  have tiled : Tiled headerSize start (before ++ [⟨b, count, true⟩,
      ⟨rest, size - count - headerSize, false⟩] ++ after) heap.brk := by
    have room' : count + headerSize ≤ size := by omega
    simpa using shaped.tiled.split room' true false
  refine shaped'.relink relinked apart target tiled ?_ ⟨?_, trivial⟩
    (List.Perm.refl _) (List.Perm.refl _)
  · intro block' member
    rcases mem_cons.mp member with rfl | member
    · rw [header' b here, if_pos rfl]
      exact ⟨rfl, rfl⟩
    · rw [mem_singleton.mp member, header' rest there, if_neg (Ne.symm other), if_pos rfl]
      exact ⟨rfl, rfl⟩
  · rw [restNext]
    rfl

end MainDob.Libc
