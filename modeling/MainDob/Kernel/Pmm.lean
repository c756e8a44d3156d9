/-
Purpose: The physical frame allocator of `kernel/mm/pmm.c`: a two-zone bitmap
  with free counters and search hints.
Trusted boundary: the spinlock makes every API call one atomic step; console
  messages are not modelled.
Main exports: Zones, State, zoneFindFree
-/
import MainDob.Lib.BitScan

namespace MainDob.Kernel.Pmm

open Lib

/-- Frames the static bitmap can describe: 4 GB in pages of 4 KB. -/
def maxFrames : Nat := 1024 * 1024

def pageShift : Nat := 12

/-- Page-offset mask, `PAGE_SIZE - 1`. -/
def pageMask : BitVec 32 := 0xFFF#32

def addrToFrame (addr : BitVec 32) : Nat := (addr >>> pageShift).toNat

def frameToAddr (frame : Nat) : BitVec 32 :=
  BitVec.ofNat 32 frame <<< pageShift

/-- First frame of the NORMAL zone when there is enough memory (16 MB). -/
def pmmDmaLimit : BitVec 32 := 0x01000000#32

def pmmZoneDma : BitVec 32 := 1#32

def pmmZonePreferLow : BitVec 32 := 2#32

/-- The frame limits fixed at boot: extent of the RAM, ceiling of what the
allocator hands out and end of the DMA zone. -/
structure Zones where
  totalFrames : Nat
  allocCeiling : Nat
  dmaLimit : Nat
  total_le : totalFrames ≤ maxFrames
  ceiling_le : allocCeiling ≤ totalFrames
  dma_le : dmaLimit ≤ totalFrames
  dma_pos : 0 < allocCeiling → 0 < dmaLimit

/-- `measure_usable_ram`: the three limits from the top of the usable RAM and
the top of the kernel's direct map. -/
def measureUsableRam (rawTop directMapLimit : BitVec 32) : Zones where
  totalFrames := min (addrToFrame rawTop) maxFrames
  allocCeiling :=
    min (min (addrToFrame rawTop) maxFrames) (addrToFrame directMapLimit)
  dmaLimit :=
    min (addrToFrame pmmDmaLimit) (min (addrToFrame rawTop) maxFrames)
  total_le := min_le_right _ _
  ceiling_le := min_le_left _ _
  dma_le := min_le_right _ _
  dma_pos := by
    intro positive
    have limit : addrToFrame pmmDmaLimit = 4096 := by decide
    omega

/-- The mutable state of the allocator.  The counters are 32-bit words. -/
structure State where
  bitmap : Nat → BitVec 32
  freeFrames : Nat
  dmaFree : Nat
  hintDma : Nat
  hintNormal : Nat
  doubleFreeCaught : Nat

/-- The two search ranges of the allocator. -/
inductive Zone where
  | dma
  | normal
deriving DecidableEq, Repr

variable (z : Zones)

/-- First frame searched: frame 0 is never handed out. -/
def Zone.start : Zone → Nat
  | .dma => 1
  | .normal => z.dmaLimit

def Zone.stop : Zone → Nat
  | .dma => z.dmaLimit
  | .normal => z.allocCeiling

/-- 32-bit decrement. -/
def decrement (word : Nat) : Nat := (word + (2 ^ 32 - 1)) % 2 ^ 32

/-- 32-bit increment. -/
def increment (word : Nat) : Nat := (word + 1) % 2 ^ 32

/-! ### Bitmap verbs -/

def frameIsUsed (s : State) (f : Nat) : Bool := (s.bitmap (f / 32)).getLsbD (f % 32)

def frameSetUsed (s : State) (f : Nat) : State :=
  { s with
    bitmap := Function.update s.bitmap (f / 32)
      (s.bitmap (f / 32) ||| 1#32 <<< (f % 32))
    freeFrames := decrement s.freeFrames
    dmaFree := if f < z.dmaLimit then decrement s.dmaFree else s.dmaFree }

def frameSetFree (s : State) (f : Nat) : State :=
  { s with
    bitmap := Function.update s.bitmap (f / 32)
      (s.bitmap (f / 32) &&& ~~~(1#32 <<< (f % 32)))
    freeFrames := increment s.freeFrames
    dmaFree := if f < z.dmaLimit then increment s.dmaFree else s.dmaFree
    hintDma :=
      if f < z.dmaLimit then (if f < s.hintDma then f else s.hintDma)
      else s.hintDma
    hintNormal :=
      if f < z.dmaLimit then s.hintNormal
      else if f < s.hintNormal then f else s.hintNormal }

/-- One word of the free-frame scan: the clear bits of word `w`, lowest first,
each checked against the zone limits. -/
def scanWord (s : State) (start stop w : Nat) : Option Nat :=
  (scanBits (fun bit => decide (start ≤ w * 32 + bit) &&
      decide (w * 32 + bit < stop)) 32 (~~~ s.bitmap w)).map
    (fun bit => w * 32 + bit)

/-- The word loop: `count` words from word `w` on. -/
def scanWords (s : State) (start stop : Nat) : Nat → Nat → Option Nat
  | 0, _ => none
  | count + 1, w =>
    match scanWord s start stop w with
    | some f => some f
    | none => scanWords s start stop count (w + 1)

/-- First free frame of `[start, stop)`, from the hint to the end and then
from the start to the hint. -/
def zoneFindFree (s : State) (start stop hint : Nat) : Option Nat :=
  let from_ := if start ≤ hint ∧ hint < stop then hint else start
  match scanWords s start stop ((stop + 31) / 32 - from_ / 32) (from_ / 32) with
  | some f => some f
  | none =>
    scanWords s start stop ((from_ + 31) / 32 - start / 32) (start / 32)

/-- The run loop of `zone_find_contiguous` with `left` frames still to look
at: `run` free frames from `begin_` on end just before `f`. -/
def findRun (s : State) (n : Nat) : Nat → Nat → Nat → Nat → Option Nat
  | 0, _, _, _ => none
  | left + 1, f, run, begin_ =>
    if frameIsUsed s f then findRun s n left (f + 1) 0 (f + 1)
    else if run + 1 = n then some begin_
    else findRun s n left (f + 1) (run + 1) begin_

def zoneFindContiguous (s : State) (start stop n : Nat) : Option Nat :=
  findRun s n (stop - start) start 0 start

/-! ### Allocation verbs -/

def Zone.hint (s : State) : Zone → Nat
  | .dma => s.hintDma
  | .normal => s.hintNormal

def Zone.setHint (s : State) (hint : Nat) : Zone → State
  | .dma => { s with hintDma := hint }
  | .normal => { s with hintNormal := hint }

/-- Take one free frame of a zone.  The address 0 reports that there is
none. -/
def takeFrame (zone : Zone) (s : State) : BitVec 32 × State :=
  match zoneFindFree s (zone.start z) (zone.stop z) (zone.hint s) with
  | none => (0#32, s)
  | some f => (frameToAddr f, zone.setHint (frameSetUsed z s f) (f + 1))

/-- Free one frame unless it is frame 0, lies above the ceiling or is free
already; the last case is counted. -/
def releaseFrameChecked (s : State) (f : Nat) : State :=
  if f = 0 ∨ z.allocCeiling ≤ f then s
  else if frameIsUsed s f then frameSetFree z s f
  else { s with doubleFreeCaught := increment s.doubleFreeCaught }

/-! ### API -/

/-- Does the request name a zone it must not leave? -/
def wantsDma (zoneFlags : BitVec 32) : Bool := zoneFlags &&& pmmZoneDma != 0#32

def prefersLow (zoneFlags : BitVec 32) : Bool :=
  zoneFlags &&& pmmZonePreferLow != 0#32

/-- `pmm_alloc_frame`; the address 0 is out of memory. -/
def pmmAllocFrame (zoneFlags : BitVec 32) (s : State) : BitVec 32 × State :=
  if wantsDma zoneFlags then takeFrame z .dma s
  else if prefersLow zoneFlags then
    match takeFrame z .dma s with
    | (pa, s') => if pa = 0#32 then takeFrame z .normal s' else (pa, s')
  else
    match takeFrame z .normal s with
    | (pa, s') => if pa = 0#32 then takeFrame z .dma s' else (pa, s')

def pmmFreeFrame (physAddr : BitVec 32) (s : State) : State :=
  if physAddr &&& pageMask ≠ 0#32 then s
  else releaseFrameChecked z s (addrToFrame physAddr)

/-- The zone search of `pmm_alloc_contiguous`. -/
def findContiguous (count : Nat) (zoneFlags : BitVec 32) (s : State) :
    Option Nat :=
  let find (zone : Zone) :=
    zoneFindContiguous s (zone.start z) (zone.stop z) count
  if wantsDma zoneFlags then find .dma
  else if prefersLow zoneFlags then
    match find .dma with
    | some base => some base
    | none => find .normal
  else
    match find .normal with
    | some base => some base
    | none => find .dma

/-- Mark `count` frames from `base` on. -/
def setUsedRun (base : Nat) : Nat → State → State
  | 0, s => s
  | count + 1, s => frameSetUsed z (setUsedRun base count s) (base + count)

def pmmAllocContiguous (count zoneFlags : BitVec 32) (s : State) : BitVec 32 × State :=
  if count = 0#32 then (0#32, s)
  else
    match findContiguous z count.toNat zoneFlags s with
    | none => (0#32, s)
    | some base => (frameToAddr base, setUsedRun z base count.toNat s)

/-- Release `count` frames from `base` on; the frame number is a 32-bit
word. -/
def releaseRun (base : Nat) : Nat → State → State
  | 0, s => s
  | count + 1, s =>
    releaseFrameChecked z (releaseRun base count s) ((base + count) % 2 ^ 32)

def pmmFreeContiguous (physAddr count : BitVec 32) (s : State) : State :=
  if physAddr &&& pageMask ≠ 0#32 then s
  else releaseRun z (addrToFrame physAddr) count.toNat s

/-- The marking loop of `pmm_mark_used` with `left` frames from `f` on. -/
def markRun : Nat → Nat → State → State
  | 0, _, s => s
  | left + 1, f, s =>
    markRun left (f + 1) (if frameIsUsed s f then s else frameSetUsed z s f)

/-- First frame of the byte range, rounded down to a page. -/
def markFirst (physAddr : BitVec 32) : Nat := addrToFrame (physAddr &&& ~~~pageMask)

/-- First frame past the byte range, rounded up to a page in 32-bit
arithmetic. -/
def markEnd (physAddr size : BitVec 32) : Nat :=
  addrToFrame ((physAddr + size + pageMask) &&& ~~~pageMask)

def pmmMarkUsed (physAddr size : BitVec 32) (s : State) : State :=
  markRun z (min (markEnd physAddr size) z.totalFrames - markFirst physAddr) (markFirst physAddr) s

/-! ### Requests -/

/-- The calls other kernel code makes on the allocator. -/
inductive Request where
  | allocFrame (zoneFlags : BitVec 32)
  | allocContiguous (count zoneFlags : BitVec 32)
  | freeFrame (physAddr : BitVec 32)
  | freeContiguous (physAddr count : BitVec 32)
  | markUsed (physAddr size : BitVec 32)
deriving DecidableEq, Repr

/-- Answer and next state of a request.  The void calls answer 0. -/
def exec : Request → State → BitVec 32 × State
  | .allocFrame zoneFlags, s => pmmAllocFrame z zoneFlags s
  | .allocContiguous count zoneFlags, s => pmmAllocContiguous z count zoneFlags s
  | .freeFrame physAddr, s => (0#32, pmmFreeFrame z physAddr s)
  | .freeContiguous physAddr count, s =>
    (0#32, pmmFreeContiguous z physAddr count s)
  | .markUsed physAddr size, s => (0#32, pmmMarkUsed z physAddr size s)

/-- The state after a list of requests. -/
def execAll : List Request → State → State
  | [], s => s
  | request :: requests, s => execAll requests (exec z request s).2

end MainDob.Kernel.Pmm
