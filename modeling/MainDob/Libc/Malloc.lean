/-
Purpose: The heap of a program, `libc/src/stdlib.c`: `malloc`, `free`, `calloc`
  and `realloc` on the bytes of memory, with the headers of the blocks in it and
  the free list threaded through the headers.
Trusted boundary: one context at a time is in the heap, as its lock has it; an
  address of the heap and a size added to it stay below 2^32; `sbrk` extends and
  shrinks one break, up to the address the kernel has as a limit, `granted`
  decides on an extension and `fill` what new memory holds.
Main exports: Heap, sbrk, mallocUnlocked
-/
import Mathlib.Algebra.Ring.Int.Defs
import MainDob.Lib.Bytes

namespace MainDob.Libc

open Lib.Bytes (leBytes putBytes getLe)

def blockMagicAlloc : Nat := 0xABCD1234

def blockMagicFree : Nat := 0xDEAD0000

def headerSize : Nat := 12

def minAlloc : Nat := 16

def sbrkAlign : Nat := 4096

/-- The address `sys_brk` lets no break pass. -/
def brkCap : Nat := 0x40000000

/-- The memory of a program, and the globals of its heap; the pointer 0 is
`NULL`. -/
structure Heap where
  mem : Nat → UInt8
  freeList : Nat
  heapInitialized : Bool
  brk : Nat
  extensions : Nat
  granted : Nat → Bool
  fill : Nat → Nat → UInt8

/-- A header as it is in memory. -/
structure Header where
  size : Nat
  next : Nat
  magic : Nat
deriving DecidableEq, Repr

namespace Heap

def header (heap : Heap) (b : Nat) : Header :=
  ⟨getLe 4 b heap.mem, getLe 4 (b + 4) heap.mem, getLe 4 (b + 8) heap.mem⟩

def setSize (heap : Heap) (b size : Nat) : Heap :=
  { heap with mem := putBytes b (leBytes 4 size) heap.mem }

def setNext (heap : Heap) (b next : Nat) : Heap :=
  { heap with mem := putBytes (b + 4) (leBytes 4 next) heap.mem }

def setMagic (heap : Heap) (b magic : Nat) : Heap :=
  { heap with mem := putBytes (b + 8) (leBytes 4 magic) heap.mem }

/-- A write through `pp`, which points to `free_list` or to the `next` field of a
block. -/
def setLink (heap : Heap) (pp : Option Nat) (b : Nat) : Heap :=
  match pp with
  | none => { heap with freeList := b }
  | some prev => setNext heap prev b

end Heap

/-! ### The break -/

/-- `sbrk`: the old break, unless an extension is refused. -/
def sbrk (heap : Heap) (increment : Int) : Option Nat × Heap :=
  if increment ≤ 0 then
    (some heap.brk, { heap with brk := (heap.brk + increment).toNat })
  else
    let count := increment.toNat
    let counted := { heap with extensions := heap.extensions + 1 }
    if heap.granted heap.extensions && heap.brk + count ≤ brkCap then
      (some heap.brk, { counted with
        brk := heap.brk + count
        mem := fun a =>
          if heap.brk ≤ a ∧ a < heap.brk + count then heap.fill heap.extensions a
          else heap.mem a })
    else (none, counted)

/-- The cast of a `uint32_t` to `int`. -/
def toInt32 (n : Nat) : Int := if n < 2 ^ 31 then n else (n : Int) - 2 ^ 32

/-- The header of a new free block. -/
def newBlock (heap : Heap) (b size next : Nat) : Heap :=
  ((heap.setSize b size).setNext b next).setMagic b blockMagicFree

def heapInit (heap : Heap) : Heap :=
  if heap.heapInitialized then heap
  else
    match sbrk heap sbrkAlign with
    | (none, heap) => heap
    | (some base, heap) =>
      { newBlock heap base (sbrkAlign - headerSize) 0 with
        freeList := base
        heapInitialized := true }

/-- How much `heap_grow` asks for: at least a page, in whole pages. -/
def growTotal (minSize : Nat) : Nat :=
  let total := (minSize + headerSize) % 2 ^ 32
  let total := if total < sbrkAlign then sbrkAlign else total
  (total + sbrkAlign - 1) % 2 ^ 32 / sbrkAlign * sbrkAlign

/-- `heap_grow`: the new block, at the front of the free list. -/
def heapGrow (heap : Heap) (minSize : Nat) : Option Nat × Heap :=
  let total := growTotal minSize
  match sbrk heap (toInt32 total) with
  | (none, heap) => (none, heap)
  | (some b, heap) =>
    (some b, { newBlock heap b (total - headerSize) heap.freeList with
      freeList := b })

/-! ### Allocation -/

/-- A size in units of eight bytes, at least `MIN_ALLOC`. -/
def alignSize (size : Nat) : Nat :=
  let size := (size + 7) % 2 ^ 32 / 8 * 8
  if size < minAlloc then minAlloc else size

/-- The first-fit search: `pp` is where the pointer to `b` is kept. -/
def firstFit (heap : Heap) (size : Nat) : Nat → Option Nat → Nat → Option (Option Nat × Nat)
  | 0, _, _ => none
  | fuel + 1, pp, b =>
    if b = 0 then none
    else if size ≤ (heap.header b).size then some (pp, b)
    else firstFit heap size fuel (some b) (heap.header b).next

/-- A block of the free list is taken, and what it has too much is split off. -/
def takeBlock (heap : Heap) (pp : Option Nat) (b size : Nat) : Heap :=
  let has := (heap.header b).size
  let next := (heap.header b).next
  let heap :=
    if size + headerSize + minAlloc ≤ has then
      let rest := b + headerSize + size
      ((newBlock heap rest (has - size - headerSize) next).setSize b size).setLink pp rest
    else heap.setLink pp next
  (heap.setMagic b blockMagicAlloc).setNext b 0

/-- As many steps as the free list can have elements. -/
def listFuel (heap : Heap) : Nat := heap.brk + 1

/-- `malloc_unlocked`: it calls itself once when the heap has grown. -/
def mallocLoop : Nat → Heap → Nat → Nat × Heap
  | 0, heap, _ => (0, heap)
  | fuel + 1, heap, size =>
    if size = 0 then (0, heap)
    else
      let heap := heapInit heap
      let size := alignSize size
      match firstFit heap size (listFuel heap) none heap.freeList with
      | some (pp, b) => (b + headerSize, takeBlock heap pp b size)
      | none =>
        match heapGrow heap size with
        | (none, heap) => (0, heap)
        | (some _, heap) => mallocLoop fuel heap size

def mallocUnlocked (heap : Heap) (size : Nat) : Nat × Heap :=
  mallocLoop 2 heap size

/-! ### Release -/

/-- The walk to the place of a block in the free list: the pointer before it and
the block behind it. -/
def findPlace (heap : Heap) (b : Nat) : Nat → Option Nat → Nat → Option Nat × Nat
  | 0, prev, cur => (prev, cur)
  | fuel + 1, prev, cur =>
    if cur ≠ 0 ∧ cur < b then
      findPlace heap b fuel (some cur) (heap.header cur).next
    else (prev, cur)

/-- A block takes in the one behind it in the free list. -/
def absorb (heap : Heap) (b next : Nat) : Heap :=
  let grown := heap.setSize b ((heap.header b).size + (headerSize + (heap.header next).size))
  grown.setNext b (grown.header next).next

/-- Does the second block begin where the first one ends? -/
def adjacent (heap : Heap) (b next : Nat) : Bool :=
  b + headerSize + (heap.header b).size == next

def coalesceNext (heap : Heap) (b : Nat) : Heap :=
  let next := (heap.header b).next
  if next ≠ 0 ∧ adjacent heap b next = true then absorb heap b next else heap

/-- The block that `b` is part of afterwards comes first. -/
def coalescePrev (heap : Heap) (prev : Option Nat) (b : Nat) : Nat × Heap :=
  match prev with
  | none => (b, heap)
  | some p => if adjacent heap p b then (p, absorb heap p b) else (b, heap)

/-- The end of `free_unlocked`: pages at the break are given back. -/
def trimHeap (heap : Heap) (b : Nat) : Heap :=
  let size := (heap.header b).size
  if size + headerSize < sbrkAlign * 2 then heap
  else if b + headerSize + size = heap.brk then
    let release := (size + headerSize - sbrkAlign) / sbrkAlign * sbrkAlign
    if 0 < release then
      (sbrk (heap.setSize b (size - release)) (-toInt32 release)).2
    else heap
  else heap

def freeUnlocked (heap : Heap) (ptr : Nat) : Heap :=
  if ptr = 0 then heap
  else
    let b := ptr - headerSize
    if (heap.header b).magic ≠ blockMagicAlloc then heap
    else
      let heap := heap.setMagic b blockMagicFree
      let (prev, cur) := findPlace heap b (listFuel heap) none heap.freeList
      let heap := (heap.setNext b cur).setLink prev b
      let heap := coalesceNext heap b
      let (b, heap) := coalescePrev heap prev b
      trimHeap heap b

/-! ### The calls of a program -/

def malloc (heap : Heap) (size : Nat) : Nat × Heap := mallocUnlocked heap size

def free (heap : Heap) (ptr : Nat) : Heap := freeUnlocked heap ptr

/-- `memset` with zero. -/
def clear (heap : Heap) (ptr count : Nat) : Heap :=
  { heap with mem := fun a =>
      if ptr ≤ a ∧ a < ptr + count then 0 else heap.mem a }

/-- `memcpy`. -/
def copy (heap : Heap) (dst src count : Nat) : Heap :=
  { heap with mem := fun a =>
      if dst ≤ a ∧ a < dst + count then heap.mem (src + (a - dst)) else heap.mem a }

def calloc (heap : Heap) (count size : Nat) : Nat × Heap :=
  if count ≠ 0 ∧ (2 ^ 32 - 1) / count < size then (0, heap)
  else
    let total := count * size % 2 ^ 32
    let (p, heap) := malloc heap total
    (p, if p ≠ 0 then clear heap p total else heap)

def realloc (heap : Heap) (ptr size : Nat) : Nat × Heap :=
  if ptr = 0 then malloc heap size
  else if size = 0 then (0, free heap ptr)
  else
    let b := ptr - headerSize
    if (heap.header b).magic ≠ blockMagicAlloc then (0, heap)
    else if size ≤ (heap.header b).size then (ptr, heap)
    else
      let (newp, heap) := mallocUnlocked heap size
      if newp ≠ 0 then
        (newp, freeUnlocked (copy heap newp ptr (heap.header b).size) ptr)
      else (newp, heap)

/-- What a program does with its heap: the calls, and a write of its own. -/
inductive Op where
  | malloc (size : Nat)
  | free (ptr : Nat)
  | calloc (count size : Nat)
  | realloc (ptr size : Nat)
  | store (a : Nat) (byte : UInt8)

/-- A call and what it returns. -/
def perform (heap : Heap) : Op → Nat × Heap
  | .malloc size => malloc heap size
  | .free ptr => (0, free heap ptr)
  | .calloc count size => calloc heap count size
  | .realloc ptr size => realloc heap ptr size
  | .store a byte => (0, { heap with mem := putBytes a [byte] heap.mem })

/-- A heap before its first use. -/
def unused (mem : Nat → UInt8) (brk : Nat) (granted : Nat → Bool)
    (fill : Nat → Nat → UInt8) : Heap :=
  ⟨mem, 0, false, brk, 0, granted, fill⟩

end MainDob.Libc
