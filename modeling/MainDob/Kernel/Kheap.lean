/-
Purpose: The kernel heap of kernel/mm/kheap.c above its page allocator: slab
  pages with their bitmaps, the partial and empty lists of each class, the
  per-CPU caches, large objects, and kmalloc, kfree and kheap_empty_trim,
  interleaved section by section.
Trusted boundary: a section under one lock, or with interrupts off on the
  caches of its CPU, is one step; kmalloc_large, create_slab_page and the kfree
  of a large object, which take the locks of the page allocator several times,
  are one step each; nobody writes outside the objects it was given, so headers
  stay as the allocator wrote them; what kfree reads at an address that is no
  header is a choice of the environment
Main exports: SlabPage, Slabs, slotsThatFit
-/
import Mathlib.Data.Finset.Card
import Mathlib.Data.Finset.Range
import Mathlib.Logic.Function.Basic
import MainDob.Kernel.Kpages
import MainDob.Lib.BitScan

namespace MainDob.Kernel.Kheap

open Function (update)
open Lib
open Kpages (Kva Range pageSize wordSize kpagesAlloc kpagesFree)

def numClasses : Nat := 8

def slabMagic : Nat := 0xD0B5A1AB

def largeMagic : Nat := 0xD0B1A11C

def emptyCacheMax : Nat := 8

def kmCacheDepth : Nat := 16

def maxCpus : Nat := 32

/-- `sizeof(kheap_page_t)`. -/
def pageHeaderSize : Nat := 20

/-- `sizeof(large_hdr_t)`. -/
def largeHeaderSize : Nat := 8

/-- `s_class_size`. -/
def classSizes : List Nat := [16, 32, 64, 128, 256, 512, 1024, 2048]

def classSize (cls : Nat) : Nat := classSizes.getD cls 0

/-- `size_to_class`. -/
def sizeToClass (size : Nat) : Option Nat :=
  classSizes.findIdx? fun limit => decide (size ≤ limit)

/-- `addr & ~(PAGE_SIZE - 1)`. -/
def pageBase (addr : Nat) : Nat := addr / pageSize * pageSize

/-! ### Slab pages -/

/-- A `kheap_page_t` with the bitmap that follows it.  Its links are the lists
of `Slabs`. -/
structure SlabPage where
  classIdx : Nat
  inPartial : Bool
  freeCount : Nat
  totalSlots : Nat
  bitmap : List (BitVec 32)
deriving DecidableEq, Repr

/-- `bitmap_words`. -/
def bitmapWords (p : SlabPage) : Nat := (p.totalSlots + 31) / 32

/-- Where the first slot of a page starts. -/
def slotsOffset (p : SlabPage) : Nat := pageHeaderSize + bitmapWords p * 4

/-- `slot_address`. -/
def slotAddress (virt : Nat) (p : SlabPage) (idx size : Nat) : Nat :=
  (virt + slotsOffset p + idx * size) % wordSize

/-- The bit of a slot in the bitmap. -/
def slotTaken (p : SlabPage) (idx : Nat) : Bool :=
  (p.bitmap.getD (idx / 32) 0#32).getLsbD (idx % 32)

/-- The loop of `slots_that_fit`. -/
def fitDown (size : Nat) : Nat → Nat
  | 0 => 0
  | n + 1 =>
    if pageHeaderSize + (n + 1 + 31) / 32 * 4 + (n + 1) * size > pageSize then
      fitDown size n
    else n + 1

/-- `slots_that_fit`. -/
def slotsThatFit (size : Nat) : Nat :=
  fitDown size ((pageSize - pageHeaderSize) / size)

/-- What `create_slab_page` writes into a new page. -/
def freshPage (cls : Nat) : SlabPage where
  classIdx := cls
  inPartial := false
  freeCount := slotsThatFit (classSize cls)
  totalSlots := slotsThatFit (classSize cls)
  bitmap := List.replicate ((slotsThatFit (classSize cls) + 31) / 32) 0#32

/-- The loop of `claim_free_slot` over the words from number `w` on: the lowest
clear bit that is a slot. -/
def claimFrom (total : Nat) : Nat → List (BitVec 32) → Option Nat
  | _, [] => none
  | w, word :: rest =>
    match scanBits (fun bit => decide (w * 32 + bit < total)) 32 (~~~word) with
    | some bit => some (w * 32 + bit)
    | none => claimFrom total (w + 1) rest

/-- The bitmap with the bit of a slot set. -/
def setSlot (bitmap : List (BitVec 32)) (idx : Nat) : List (BitVec 32) :=
  bitmap.set (idx / 32) (bitmap.getD (idx / 32) 0#32 ||| 1#32 <<< (idx % 32))

/-- The bitmap with the bit of a slot cleared. -/
def clearSlot (bitmap : List (BitVec 32)) (idx : Nat) : List (BitVec 32) :=
  bitmap.set (idx / 32) (bitmap.getD (idx / 32) 0#32 &&& ~~~(1#32 <<< (idx % 32)))

/-- `claim_free_slot`; nothing stands for its -1. -/
def claimFreeSlot (p : SlabPage) : Option Nat × SlabPage :=
  match claimFrom p.totalSlots 0 (p.bitmap.take (bitmapWords p)) with
  | some idx => (some idx, { p with bitmap := setSlot p.bitmap idx })
  | none => (none, p)

/-- `free_count--` on a `uint16_t`. -/
@[irreducible] def countDown (count : Nat) : Nat := (count + 0xFFFF) % 2 ^ 16

/-- `free_count++` on a `uint16_t`. -/
@[irreducible] def countUp (count : Nat) : Nat := (count + 1) % 2 ^ 16

/-! ### The lists of a class -/

/-- The slab pages by address, and the variables behind `s_slab_lock`:
`s_partial`, `s_empty`, `s_empty_n` and `s_double_free_caught`. -/
structure Slabs where
  page : Nat → Option SlabPage
  partials : Nat → List Nat
  empties : Nat → List Nat
  emptyN : Nat → Nat
  doubleFreeCaught : Nat

def Slabs.initial : Slabs where
  page := fun _ => none
  partials := fun _ => []
  empties := fun _ => []
  emptyN := fun _ => 0
  doubleFreeCaught := 0

def Slabs.setPage (s : Slabs) (virt : Nat) (p : SlabPage) : Slabs :=
  { s with page := update s.page virt (some p) }

/-- `partial_push`. -/
def partialPush (s : Slabs) (cls virt : Nat) : Slabs :=
  match s.page virt with
  | none => s
  | some p =>
    { s.setPage virt { p with inPartial := true } with
      partials := update s.partials cls (virt :: s.partials cls) }

/-- `partial_remove`. -/
def partialRemove (s : Slabs) (cls virt : Nat) : Slabs :=
  match s.page virt with
  | none => s
  | some p =>
    if p.inPartial then
      { s.setPage virt { p with inPartial := false } with
        partials :=
          update s.partials cls ((s.partials cls).erase virt) }
    else s

/-- Unlink the first empty page of a class. -/
def popEmpty (s : Slabs) (cls : Nat) (rest : List Nat) : Slabs :=
  { s with
    empties := update s.empties cls rest
    emptyN := update s.emptyN cls (s.emptyN cls - 1) }

/-- `pick_cached_page`. -/
def pickCachedPage (s : Slabs) (cls : Nat) : Option (Nat × Slabs) :=
  match s.partials cls with
  | virt :: _ => some (virt, s)
  | [] =>
    match s.empties cls with
    | virt :: rest => some (virt, partialPush (popEmpty s cls rest) cls virt)
    | [] => none

/-- What `kmalloc` does to a page it has chosen: claim a slot, count it, take a
full page off the partial list.  A failed search would yield the slot -1. -/
def claimOn (s : Slabs) (cls virt : Nat) : Nat × Slabs :=
  match s.page virt with
  | none => (0, s)
  | some p =>
    let (idx, p) := claimFreeSlot p
    let p := { p with freeCount := countDown p.freeCount }
    let s := s.setPage virt p
    (slotAddress virt p (idx.getD (wordSize - 1)) (classSize cls),
      if p.freeCount = 0 then partialRemove s cls virt else s)

/-- The batch loop of `kmalloc`.  The head of the batch is the last slot
claimed. -/
def claimBatch (cls : Nat) : Nat → Slabs → List Nat → List Nat × Slabs
  | 0, s, batch => (batch, s)
  | times + 1, s, batch =>
    match pickCachedPage s cls with
    | none => (batch, s)
    | some (virt, s) =>
      let (obj, s) := claimOn s cls virt
      claimBatch cls times s (obj :: batch)

/-- A free that the bitmap refuses. -/
def Slabs.catchFree (s : Slabs) : Slabs :=
  { s with doubleFreeCaught := (s.doubleFreeCaught + 1) % wordSize }

/-- The distance of an address from the first slot of its page, in 32-bit
arithmetic. -/
def slotDistance (virt : Nat) (p : SlabPage) (addr : Nat) : Nat :=
  (addr - virt + wordSize - slotsOffset p) % wordSize

/-- The part of `release_slot_checked` past its tests.  The page is returned
when it has become empty and the list of empty pages is full. -/
def releaseSlot (s : Slabs) (virt : Nat) (p : SlabPage) (idx : Nat) : Option Nat × Slabs :=
  let freed :=
    { p with
      bitmap := clearSlot p.bitmap idx
      freeCount := countUp p.freeCount }
  let s := s.setPage virt freed
  let s := if p.freeCount = 0 then partialPush s p.classIdx virt else s
  if freed.freeCount = p.totalSlots then
    let s := partialRemove s p.classIdx virt
    if s.emptyN p.classIdx < emptyCacheMax then
      (none, { s with
        empties := update s.empties p.classIdx
          (virt :: s.empties p.classIdx)
        emptyN := update s.emptyN p.classIdx
          (s.emptyN p.classIdx + 1) })
    else (some virt, s)
  else (none, s)

/-- `release_slot_checked`, for an address in a slab page. -/
def releaseSlotChecked (s : Slabs) (addr : Nat) : Option Nat × Slabs :=
  match s.page (pageBase addr) with
  | none => (none, s)
  | some p =>
    let off := slotDistance (pageBase addr) p addr
    let idx := off / classSize p.classIdx
    if p.totalSlots ≤ idx ∨ off % classSize p.classIdx ≠ 0 then
      (none, s.catchFree)
    else if slotTaken p idx then releaseSlot s (pageBase addr) p idx
    else (none, s.catchFree)

/-- The inner loop of `kheap_empty_trim`: all empty pages of a class but one
join the chain. -/
def trimClass (cls : Nat) : Nat → Slabs × List Nat → Slabs × List Nat
  | 0, result => result
  | times + 1, (s, chain) =>
    if 1 < s.emptyN cls then
      match s.empties cls with
      | virt :: rest => trimClass cls times (popEmpty s cls rest, virt :: chain)
      | [] => (s, chain)
    else (s, chain)

/-- The locked section of `kheap_empty_trim`. -/
def kheapEmptyTrim (s : Slabs) : Slabs × List Nat :=
  (List.range numClasses).foldl
    (fun result cls => trimClass cls (result.1.emptyN cls) result) (s, [])

/-! ### Calls -/

/-- A small object in the hands of a caller. -/
structure Obj where
  addr : Nat
  size : Nat
deriving DecidableEq, Repr

/-- A large object in the hands of a caller, with the range under it. -/
structure Large where
  virt : Nat
  pages : Nat
  size : Nat
deriving DecidableEq, Repr

/-- The address a caller has for a large object. -/
def Large.addr (l : Large) : Nat := l.virt + largeHeaderSize

/-- A call between two of its sections. -/
inductive Task where
  /-- The cache was empty; a batch is wanted. -/
  | missed (cls size : Nat)
  /-- No page has a free slot; a new one is wanted. -/
  | creating (cls size : Nat)
  /-- A new page is written, not yet on a list. -/
  | created (cls size virt : Nat)
  /-- A batch is claimed, to be shared between the caller and a cache. -/
  | stocking (cls size : Nat) (batch : List Nat)
  /-- What did not fit into the cache, to be freed. -/
  | surplus (objs : List Nat)
  /-- Slab pages off every list, to be returned to the page allocator. -/
  | chain (pages : List Nat)
deriving DecidableEq, Repr

/-- The slots in the hands of a call. -/
def Task.slots : Task → List Nat
  | .stocking _ _ batch => batch
  | .surplus objs => objs
  | _ => []

/-- The slab pages in the hands of a call. -/
def Task.pages : Task → List Nat
  | .created _ _ virt => [virt]
  | .chain pages => pages
  | _ => []

/-- The heap.  `caches` are the stacks `s_km_cache`, by CPU and class; `live`
and `large` are what callers hold; `unknown` counts the frees reported as
unknown pointers; `wild` says that `kfree` has followed a header that is none,
or has read memory that is not mapped. -/
structure State where
  kva : Kva
  slabs : Slabs
  caches : List (List Nat)
  live : List Obj
  large : List Large
  tasks : List Task
  unknown : Nat
  wild : Bool

/-- `kheap_init`. -/
def initial : State where
  kva := .initial
  slabs := .initial
  caches := List.replicate (maxCpus * numClasses) []
  live := []
  large := []
  tasks := []
  unknown := 0
  wild := false

/-- The place of the cache of a CPU and a class. -/
def cacheIndex (cpu cls : Nat) : Nat := cpu * numClasses + cls

/-- The loop that moves the rest of a batch into a cache while it has room. -/
def stockCache : List Nat → List Nat → List Nat × List Nat
  | [], cache => ([], cache)
  | obj :: rest, cache =>
    if cache.length < kmCacheDepth then stockCache rest (obj :: cache)
    else (obj :: rest, cache)

/-- `ALIGN_UP(size + sizeof(large_hdr_t), PAGE_SIZE) / PAGE_SIZE` in 32-bit
arithmetic. -/
def largePages (size : Nat) : Nat :=
  (size + largeHeaderSize + (pageSize - 1)) % wordSize / pageSize

/-- Replace a task by the next ones of the same call. -/
def State.advance (s : State) (task : Task) (next : List Task) : State :=
  { s with tasks := next ++ s.tasks.erase task }

/-- The task that returns a drained page. -/
def drained : Option Nat → List Task
  | some virt => [.chain [virt]]
  | none => []

inductive Label where
  /-- The hot path of `kmalloc` for a small size, on a CPU. -/
  | kmalloc (cpu size : Nat)
  /-- `kmalloc` for a large size. -/
  | kmallocLarge (size : Nat) (backed : Bool)
  /-- The claim of a batch under `s_slab_lock`. -/
  | batch (cls size : Nat)
  /-- `create_slab_page`. -/
  | create (cls size : Nat) (backed : Bool)
  /-- The first claim on a new page under `s_slab_lock`. -/
  | publish (cls size virt : Nat)
  /-- The return of an object and the stocking of a cache, on a CPU. -/
  | stock (cpu cls size : Nat) (batch : List Nat)
  /-- The free of a surplus object. -/
  | surplus (obj : Nat) (rest : List Nat)
  /-- `kfree`, with the words that stand at the start of the page and before
  the address where the allocator has written none; absent when not mapped. -/
  | kfree (ptr : Nat) (pageWord headerWord : Option Nat)
  /-- The locked section of `kheap_empty_trim`. -/
  | trim
  /-- `kpage_free` of the first page of a chain. -/
  | pageFree (virt : Nat) (rest : List Nat)
  /-- Another user of the page allocator. -/
  | other (action : Kpages.Action)
deriving DecidableEq, Repr

/-- The large object whose first page starts at an address. -/
def State.largeAt (s : State) (virt : Nat) : Option Large :=
  s.large.find? fun l => l.virt == virt

/-- `kfree` of a large object: its header is burnt and its pages go back. -/
def State.freeLarge (s : State) (l : Large) : State :=
  { s with
    large := s.large.erase l
    kva := kpagesFree s.kva l.virt l.pages }

/-- `kfree` past the test for a slab page: the word before the address decides.
-/
def freeByHeader (s : State) (ptr : Nat) (headerWord : Option Nat) : State :=
  match (if largeHeaderSize ≤ ptr then s.largeAt (ptr - largeHeaderSize)
    else none) with
  | some l => s.freeLarge l
  | none =>
    match headerWord with
    | none => { s with wild := true }
    | some word =>
      if word = largeMagic then { s with wild := true }
      else { s with unknown := s.unknown + 1 }

/-- `kfree` of a slot: the bitmap decides. -/
def freeSlot (s : State) (ptr : Nat) : State :=
  let (empty, slabs) := releaseSlotChecked s.slabs ptr
  { s with
    slabs
    live := s.live.eraseP fun obj => obj.addr == ptr
    tasks := drained empty ++ s.tasks }

/-- `kfree`. -/
def kfree (s : State) (ptr : Nat) (pageWord headerWord : Option Nat) : State :=
  if ptr = 0 then s
  else if (s.slabs.page (pageBase ptr)).isSome then freeSlot s ptr
  else if (s.largeAt (pageBase ptr)).isSome then freeByHeader s ptr headerWord
  else
    match pageWord with
    | none => { s with wild := true }
    | some word =>
      if word = slabMagic then { s with wild := true }
      else freeByHeader s ptr headerWord

/-- Does a range belong to the heap itself? -/
def State.owns (s : State) (r : Range) : Bool :=
  (s.slabs.page r.virt).isSome || (s.largeAt r.virt).isSome

/-- The range another user gives back. -/
def heldOf : Kpages.Action → Option Range
  | .take _ => none
  | .unback held => some held
  | .free held _ _ => some held
  | .trimRound => none

/-- What a section does, absent when no call stands before it. -/
def exec (s : State) : Label → Option State
  | .kmalloc cpu size =>
    if size = 0 ∨ maxCpus ≤ cpu then none
    else
      (sizeToClass size).bind fun cls =>
        match s.caches.getD (cacheIndex cpu cls) [] with
        | obj :: rest =>
          some { s with
            caches := s.caches.set (cacheIndex cpu cls) rest
            live := ⟨obj, size⟩ :: s.live }
        | [] => some { s with tasks := .missed cls size :: s.tasks }
  | .kmallocLarge size backed =>
    if (sizeToClass size).isSome ∨ wordSize ≤ size then none
    else
      let (virt, kva) := kpagesAlloc s.kva (largePages size) backed
      if virt = 0 then some { s with kva }
      else some { s with
        kva, large := ⟨virt, largePages size, size⟩ :: s.large }
  | .batch cls size =>
    if .missed cls size ∈ s.tasks then
      let (batch, slabs) := claimBatch cls (kmCacheDepth / 2 + 1) s.slabs []
      some { s.advance (.missed cls size)
          [if batch = [] then .creating cls size
            else .stocking cls size batch] with slabs }
    else none
  | .create cls size backed =>
    if .creating cls size ∈ s.tasks then
      let (virt, kva) := kpagesAlloc s.kva 1 backed
      if virt = 0 then some { s.advance (.creating cls size) [] with kva }
      else some { s.advance (.creating cls size)
          [.created cls size virt] with
        kva, slabs := s.slabs.setPage virt (freshPage cls) }
    else none
  | .publish cls size virt =>
    if .created cls size virt ∈ s.tasks then
      let (obj, slabs) := claimOn (partialPush s.slabs cls virt) cls virt
      some { s.advance (.created cls size virt) [] with
        slabs, live := ⟨obj, size⟩ :: s.live }
    else none
  | .stock cpu cls size batch =>
    if .stocking cls size batch ∈ s.tasks ∧ cpu < maxCpus then
      match batch with
      | [] => none
      | obj :: rest =>
        let (left, cache) :=
          stockCache rest (s.caches.getD (cacheIndex cpu cls) [])
        some { s.advance (.stocking cls size batch) [.surplus left] with
          caches := s.caches.set (cacheIndex cpu cls) cache
          live := ⟨obj, size⟩ :: s.live }
    else none
  | .surplus obj rest =>
    if .surplus (obj :: rest) ∈ s.tasks then
      let (empty, slabs) := releaseSlotChecked s.slabs obj
      some { s.advance (.surplus (obj :: rest))
          (.surplus rest :: drained empty) with slabs }
    else none
  | .kfree ptr pageWord headerWord => some (kfree s ptr pageWord headerWord)
  | .trim =>
    let (slabs, pages) := kheapEmptyTrim s.slabs
    some { s with slabs, tasks := .chain pages :: s.tasks }
  | .pageFree virt rest =>
    if .chain (virt :: rest) ∈ s.tasks then
      some { s.advance (.chain (virt :: rest)) [.chain rest] with
        slabs :=
          { s.slabs with page := update s.slabs.page virt none }
        kva := kpagesFree s.kva virt 1 }
    else none
  | .other action =>
    if ((heldOf action).all fun held => !s.owns held) then
      (Kpages.exec s.kva action).map fun kva => { s with kva }
    else none

/-- One section of one call; nothing is said once the heap has run wild. -/
def step (first : State) (label : Label) (last : State) : Prop :=
  first.wild = false ∧ exec first label = some last

/-! ### What the heap promises -/

/-- A pointer is a live allocation. -/
def Live (s : State) (ptr : Nat) : Prop :=
  (∃ obj ∈ s.live, obj.addr = ptr) ∨ ∃ l ∈ s.large, l.addr = ptr

/-- The slots of a page whose bit is clear. -/
def clearSlots (p : SlabPage) : Finset Nat :=
  (Finset.range p.totalSlots).filter fun idx => slotTaken p idx = false

/-- The slab pages that a call has in hand, on no list. -/
def handPages (s : State) : List Nat := s.tasks.flatMap Task.pages

/-- Two objects share no byte. -/
def Apart (one two : Obj) : Prop :=
  one.addr + one.size ≤ two.addr ∨ two.addr + two.size ≤ one.addr

/-- All objects in the hands of callers. -/
def objects (s : State) : List Obj :=
  s.live ++ s.large.map fun l => ⟨l.addr, l.size⟩

/-- The counts of the slab pages are right, a page is on the partial list of
its class exactly when it has a free slot and is not parked as empty, the
search on a page of the partial list finds a slot, and the objects handed out
share no byte and lie inside their pages, after the header. -/
structure SlabContract (s : State) : Prop where
  counts : ∀ virt p, s.slabs.page virt = some p → p.freeCount = (clearSlots p).card
  listed : ∀ virt p, s.slabs.page virt = some p → virt ∉ handPages s →
    (virt ∈ s.slabs.partials p.classIdx ↔ 0 < p.freeCount ∧ virt ∉ s.slabs.empties p.classIdx)
  found : ∀ cls virt slabs, pickCachedPage s.slabs cls = some (virt, slabs) →
    ∃ p, slabs.page virt = some p ∧ (claimFreeSlot p).1.isSome
  disjoint : (objects s).Pairwise Apart
  inside : ∀ obj ∈ s.live, ∃ virt p, s.slabs.page virt = some p ∧
    virt + slotsOffset p ≤ obj.addr ∧ obj.addr + obj.size ≤ virt + pageSize
  insideLarge : ∀ l ∈ s.large, l.addr + l.size ≤ l.virt + l.pages * pageSize

/-- The sum of a large size and its header is no more than the address
space. -/
def SizeFits : Label → Prop
  | .kmallocLarge size _ => size + largeHeaderSize ≤ wordSize
  | _ => True

/-- The end of a range asked of the page allocator, were it laid at the bump
pointer, is a `uint32_t`. -/
def RangeFits (s : State) : Label → Prop
  | .kmallocLarge size _ =>
    s.kva.pool.bump + largePages size * pageSize < wordSize
  | .other action => Kpages.NoWrap s.kva action
  | _ => True

/-- Only live pointers are freed. -/
def FreesLive (s : State) : Label → Prop
  | .kfree ptr _ _ => ptr = 0 ∨ Live s ptr
  | _ => True

/-- The slots that are taken in a bitmap and held by no caller: they lie in the
cache of a CPU, or in a batch on its way there or back. -/
def idleSlots (s : State) : List Nat :=
  s.caches.flatten ++ s.tasks.flatMap Task.slots

/-- What is freed is live, or lies in a slab page and is no idle slot, or lies
elsewhere in memory that can be read and does not look like a header. -/
def FreesSeen (s : State) : Label → Prop
  | .kfree ptr pageWord headerWord =>
    ptr = 0 ∨ Live s ptr ∨ ((s.slabs.page (pageBase ptr)).isSome ∧ ptr ∉ idleSlots s) ∨
      ((s.slabs.page (pageBase ptr)).isNone ∧
        ((s.largeAt (pageBase ptr)).isSome ∨ ∃ word, pageWord = some word ∧ word ≠ slabMagic) ∧
        ∃ word, headerWord = some word ∧ word ≠ largeMagic)
  | _ => True

/-- The free of a pointer was reported and has changed nothing but the counter
of such reports; the null pointer is passed over in silence. -/
def Caught (s : State) (ptr : Nat) (s' : State) : Prop :=
  (ptr = 0 ∧ s' = s) ∨ s' = { s with slabs := s.slabs.catchFree } ∨
    s' = { s with unknown := s.unknown + 1 }

/-- A step that frees a pointer that is not live is caught, and a step that
returns an object does not return the address of one that is still live. -/
structure FreeContract (s : State) (label : Label) (s' : State) : Prop where
  caught : ∀ ptr pageWord headerWord, label = .kfree ptr pageWord headerWord →
    ¬ Live s ptr → Caught s ptr s'
  fresh : ∀ obj, s'.live = obj :: s.live → ¬ Live s obj.addr
  freshLarge : ∀ l, s'.large = l :: s.large → ¬ Live s l.addr

end MainDob.Kernel.Kheap
