/-
Purpose: The contiguous reserve for DMA buffers of kernel/mm/dma_pool.c: a page
  bitmap over a run of frames taken at boot, searched best-fit.
Trusted boundary: the spinlock makes every call one step; console messages are
  not modelled, nor what a free does to the memory behind the bitmap
Main exports: Pool, pageUsed, pageSet
-/
import MainDob.Kernel.Pmm
import MainDob.Lib.Gaps
import MainDob.Lib.Runs

namespace MainDob.Kernel.DmaPool

open Lib Lib.Gaps

def pageSize : Nat := 4096

/-- `DMA_POOL_PAGES`: 4 MB. -/
def dmaPoolPages : Nat := 1024

/-- The number of values of a `uint32_t`. -/
def wordSize : Nat := 2 ^ 32

/-- `DIRECT_MAP_LIMIT` of kernel/mm/paging.c. -/
def directMapLimit : BitVec 32 := 0x10000000#32

/-- The variables of the pool.  `basePhys` is 0 when the pool is off. -/
structure Pool where
  basePhys : Nat
  bitmap : Nat → BitVec 32
  free : Nat

/-! ### Bitmap verbs -/

def pageUsed (p : Pool) (idx : Nat) : Bool :=
  (p.bitmap (idx / 32)).getLsbD (idx % 32)

def pageSet (p : Pool) (idx : Nat) : Pool :=
  { p with
    bitmap := Function.update p.bitmap (idx / 32)
      (p.bitmap (idx / 32) ||| 1#32 <<< (idx % 32)) }

def pageClear (p : Pool) (idx : Nat) : Pool :=
  { p with
    bitmap := Function.update p.bitmap (idx / 32)
      (p.bitmap (idx / 32) &&& ~~~(1#32 <<< (idx % 32))) }

/-- The loop of `find_run` with `left` rounds to go: the `run` pages before `i`
are free, and `best` is the start of the best candidate so far. -/
def findRunFrom (p : Pool) (n : Nat) : Nat → Nat → Nat → Nat → Nat → Nat
  | 0, _, _, best, _ => best
  | left + 1, i, run, best, bestLen =>
    if i < dmaPoolPages ∧ pageUsed p i = false then
      findRunFrom p n left (i + 1) (run + 1) best bestLen
    else if n ≤ run ∧ run < bestLen then
      -- a run that fits exactly ends the search
      if run = n then i - run
      else findRunFrom p n left (i + 1) 0 (i - run) run
    else findRunFrom p n left (i + 1) 0 best bestLen

/-- `find_run`; `DMA_POOL_PAGES` says that there is none. -/
def findRun (p : Pool) (n : Nat) : Nat :=
  findRunFrom p n (dmaPoolPages + 1) 0 0 dmaPoolPages (dmaPoolPages + 1)

/-! ### API -/

/-- `dma_pool_init`, on the physical allocator of a machine with usable memory
up to `rawTop`. -/
def dmaPoolInit (rawTop : BitVec 32) (frames : Pmm.State) : Pool :=
  let phys := (Pmm.pmmAllocContiguous
    (Pmm.measureUsableRam rawTop directMapLimit) 1024#32 Pmm.pmmZonePreferLow frames).1
  { basePhys := phys.toNat
    bitmap := fun _ => 0#32
    free := if phys = 0#32 then 0 else dmaPoolPages }

/-- Mark `count` pages from `start` on. -/
def setRun (start : Nat) : Nat → Pool → Pool
  | 0, p => p
  | count + 1, p => pageSet (setRun start count p) (start + count)

/-- `dma_pool_alloc`; the address 0 says that nothing was allocated. -/
def dmaPoolAlloc (p : Pool) (pages : Nat) : Nat × Pool :=
  if p.basePhys = 0 ∨ pages = 0 ∨ pages > dmaPoolPages then (0, p)
  else
    let start := findRun p pages
    if start = dmaPoolPages then (0, p)
    else
      ((p.basePhys + start * pageSize) % wordSize, { setRun start pages p with
          free := (p.free + wordSize - pages) % wordSize })

/-- Free one page unless it is free already. -/
def releasePage (p : Pool) (idx : Nat) : Pool :=
  if pageUsed p idx then
    { pageClear p idx with free := (p.free + 1) % wordSize }
  else p

/-- Free `count` pages from `start` on. -/
def releaseRun (start : Nat) : Nat → Pool → Pool
  | 0, p => p
  | count + 1, p => releasePage (releaseRun start count p) (start + count)

/-- `dma_pool_free`: is the range one of the pool, and the pool after it.
Absent when the loop leaves the bitmap. -/
def dmaPoolFree (p : Pool) (phys pages : Nat) : Option (Bool × Pool) :=
  if p.basePhys = 0 ∨ phys < p.basePhys ∨
      (phys + pages * pageSize) % wordSize > (p.basePhys + dmaPoolPages * pageSize) % wordSize then
    some (false, p)
  else
    let start := (phys - p.basePhys) / pageSize
    if dmaPoolPages < start + pages then none
    else some (true, releaseRun start pages p)

/-- `dma_pool_free_pages`. -/
def dmaPoolFreePages (p : Pool) : Nat := if p.basePhys ≠ 0 then p.free else 0

/-! ### Runs -/

/-- The pool with a record the code does not keep: for every run that was
handed out, the pages of it that were not freed since. -/
structure State where
  pool : Pool
  runs : List (List Nat)

/-- The pool at boot. -/
def State.initial (rawTop : BitVec 32) (frames : Pmm.State) : State where
  pool := dmaPoolInit rawTop frames
  runs := []

inductive Action where
  | alloc (pages : Nat)
  | free (phys pages : Nat)
deriving DecidableEq, Repr

/-- The page of the pool that an address lies in. -/
def pageAt (p : Pool) (phys : Nat) : Nat := (phys - p.basePhys) / pageSize

/-- What a call does; absent when a free leaves the bitmap. -/
def exec (s : State) : Action → Option State
  | .alloc pages =>
    let (phys, pool) := dmaPoolAlloc s.pool pages
    if phys = 0 then some { s with pool }
    else some { pool, runs := List.range' (pageAt s.pool phys) pages :: s.runs }
  | .free phys pages =>
    (dmaPoolFree s.pool phys pages).map fun (ours, pool) =>
      if ours then
        { pool
          runs := s.runs.map fun run => run.filter fun page =>
            !(List.range' (pageAt s.pool phys) pages).contains page }
      else { s with pool }

/-- One call. -/
def step (s : State) (action : Action) (s' : State) : Prop :=
  exec s action = some s'

/-- The arguments of a call are `uint32_t`, and a freed range ends below the top
of the address space. -/
def EndsInWord (_ : State) : Action → Prop
  | .alloc pages => pages < wordSize
  | .free phys pages => phys + pages * pageSize < wordSize

instance (s : State) : (action : Action) → Decidable (EndsInWord s action)
  | .alloc pages => inferInstanceAs (Decidable (pages < wordSize))
  | .free phys pages =>
    inferInstanceAs (Decidable (phys + pages * pageSize < wordSize))

/-! ### What the pool promises -/

/-- The runs share no page and lie inside the pool, the pages in use are those
of the runs, and the counter is the number of free pages. -/
structure Accounts (s : State) : Prop where
  disjoint : s.runs.Pairwise List.Disjoint
  inside : ∀ run ∈ s.runs, ∀ page ∈ run, page < dmaPoolPages
  used : ∀ page, pageUsed s.pool page = true ↔ ∃ run ∈ s.runs, page ∈ run
  counted : dmaPoolFreePages s.pool =
    if s.pool.basePhys = 0 then 0
    else freeCount (pageUsed s.pool) dmaPoolPages

/-- An allocation fails exactly when the pool is off, no page is asked for or no
run of free pages is long enough; otherwise it takes the front of a gap no
larger than any other that is long enough. -/
structure AllocContract (p : Pool) (pages : Nat) (phys : Nat) (p' : Pool) :
    Prop where
  fails : phys = 0 ↔ p.basePhys = 0 ∨ pages = 0 ∨
    ∀ first, first + pages ≤ dmaPoolPages → ¬ AllFree (pageUsed p) first pages
  keeps : phys = 0 → p' = p
  bestFit : phys ≠ 0 → ∃ first count, phys = p.basePhys + first * pageSize ∧
    Gap (pageUsed p) dmaPoolPages first count ∧ pages ≤ count ∧
    (∀ other length, Gap (pageUsed p) dmaPoolPages other length → pages ≤ length → count ≤ length) ∧
    ∀ page, pageUsed p' page = true ↔ pageUsed p page = true ∨ (first ≤ page ∧ page < first + pages)

/-- A free clears the pages of its range, and changes nothing when none of them
is in use. -/
structure FreeContract (p : Pool) (phys pages : Nat) (ours : Bool) (p' : Pool) :
    Prop where
  range : ours = true ↔ p.basePhys ≠ 0 ∧ p.basePhys ≤ phys ∧
    phys + pages * pageSize ≤ p.basePhys + dmaPoolPages * pageSize
  cleared : ours = true → ∀ page, pageUsed p' page = true ↔
    pageUsed p page = true ∧ ¬ (pageAt p phys ≤ page ∧ page < pageAt p phys + pages)
  foreign : ours = false → p' = p
  idle : AllFree (pageUsed p) (pageAt p phys) pages → p' = p

end MainDob.Kernel.DmaPool
