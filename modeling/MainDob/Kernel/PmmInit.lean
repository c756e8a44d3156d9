/-
Purpose: The boot of the physical allocator of kernel/mm/pmm.c: the limits are
  measured on the memory map, the usable regions are released into a bitmap that
  is all used, and the critical regions are marked used again.
Trusted boundary: the memory map is the snapshot of kernel/boot/boot_info.c; the
  linker places the kernel image, its static bitmap included, between 1 MB and
  the end of the direct map; console messages are not modelled
Main exports: MmapEntry, BootInfo, mmapUsableTop
-/
import MainDob.Kernel.Pmm
import Mathlib.Data.List.Nodup

namespace MainDob.Kernel.Pmm

/-- An entry of the memory map: a `boot_mmap_entry_t`. -/
structure MmapEntry where
  base : BitVec 64
  length : BitVec 64
  type : BitVec 32
deriving Repr, DecidableEq

def bootMmapMax : Nat := 32

def directMapLimit : BitVec 32 := 0x10000000#32

/-- The snapshot of what the boot loader says.  `modules` are the start and the
end of each module. -/
structure BootInfo where
  mmap : List MmapEntry
  modules : List (BitVec 32 × BitVec 32)
  kernelPhysEnd : BitVec 32
  mmap_le : mmap.length ≤ bootMmapMax
  image_start : 0x100000 ≤ kernelPhysEnd.toNat
  image_end : kernelPhysEnd.toNat ≤ directMapLimit.toNat

/-- The entries the allocator looks at: AVAILABLE, and based below 4 GB. -/
def MmapEntry.usable (e : MmapEntry) : Bool :=
  e.type == 1#32 && decide (e.base ≤ 0xFFFFFFFF#64)

/-- `(uint32_t)(e->base + e->length)`. -/
def MmapEntry.top (e : MmapEntry) : BitVec 32 := (e.base + e.length).setWidth 32

/-- `mmap_usable_top`. -/
def mmapUsableTop (mmap : List MmapEntry) : BitVec 32 :=
  mmap.foldl (fun maxAddr e =>
    if e.usable && decide (maxAddr < e.top) then e.top else maxAddr) 0#32

/-- `measure_usable_ram`. -/
def bootZones (boot : BootInfo) : Zones :=
  measureUsableRam (mmapUsableTop boot.mmap) directMapLimit

/-- The first frame an entry releases: its base rounded up in 32 bits. -/
def entryFirst (e : MmapEntry) : Nat :=
  addrToFrame ((e.base.setWidth 32 + pageMask) &&& ~~~pageMask)

/-- The frame at which the release of an entry stops: its end, cut to 32 bits
and rounded down. -/
def entryEnd (e : MmapEntry) : Nat := addrToFrame (e.top &&& ~~~pageMask)

variable (z : Zones)

/-- The loop over the frames of an entry, with `left` frames from `f` on. -/
def releaseFrom : Nat → Nat → State → State
  | 0, _, s => s
  | left + 1, f, s => releaseFrom left (f + 1) (frameSetFree z s f)

/-- The frames of an entry below the ceiling. -/
def releaseEntry (e : MmapEntry) (s : State) : State :=
  releaseFrom z (min (entryEnd e) z.allocCeiling - entryFirst e) (entryFirst e) s

/-- Every frame used, by default. -/
def State.fill (s : State) : State :=
  { s with
    bitmap := fun _ => BitVec.allOnes 32
    freeFrames := 0
    dmaFree := 0 }

/-- `release_available_regions`. -/
def releaseAvailableRegions (mmap : List MmapEntry) (s : State) : State :=
  mmap.foldl (fun s e => if e.usable then releaseEntry z e s else s) s.fill

/-- `reserve_critical_regions`. -/
def reserveCriticalRegions (boot : BootInfo) (s : State) : State :=
  let s := pmmMarkUsed z 0#32 0x100000#32 s
  let s := pmmMarkUsed z 0x100000#32 (boot.kernelPhysEnd - 0x100000#32) s
  boot.modules.foldl (fun s module => pmmMarkUsed z module.1 (module.2 - module.1) s) s

/-- The allocator before its boot: static variables are zero. -/
def State.unset : State where
  bitmap := fun _ => 0#32
  freeFrames := 0
  dmaFree := 0
  hintDma := 0
  hintNormal := 0
  doubleFreeCaught := 0

/-- `pmm_init`. -/
def pmmInit (boot : BootInfo) : State :=
  let z := bootZones boot
  let s := releaseAvailableRegions z boot.mmap State.unset
  { reserveCriticalRegions z boot s with
    hintDma := 1
    hintNormal := z.dmaLimit }

/-! ### What the boot promises -/

/-- The frames an entry releases. -/
def entryFrames (e : MmapEntry) : List Nat :=
  List.range' (entryFirst e) (min (entryEnd e) z.allocCeiling - entryFirst e)

/-- All released frames, in order. -/
def releasedFrames (boot : BootInfo) : List Nat :=
  (boot.mmap.filter MmapEntry.usable).flatMap (entryFrames (bootZones boot))

/-- A frame lies wholly inside an AVAILABLE entry. -/
def Held (boot : BootInfo) (f : Nat) : Prop :=
  ∃ e ∈ boot.mmap, e.type = 1#32 ∧ e.base.toNat ≤ f * 4096 ∧
    (f + 1) * 4096 ≤ e.base.toNat + e.length.toNat

/-- A frame is marked used after the release: it lies in the first megabyte, in
the kernel image or in a module. -/
def Reserved (boot : BootInfo) (f : Nat) : Prop :=
  f * 4096 < boot.kernelPhysEnd.toNat ∨
    ∃ module ∈ boot.modules, markFirst module.1 ≤ f ∧ f < markEnd module.1 (module.2 - module.1)

instance (boot : BootInfo) (f : Nat) : Decidable (Held boot f) :=
  inferInstanceAs (Decidable (∃ e ∈ boot.mmap, _))

instance (boot : BootInfo) (f : Nat) : Decidable (Reserved boot f) :=
  inferInstanceAs (Decidable (_ ∨ ∃ module ∈ boot.modules, _))

/-- No frame is released twice, and no AVAILABLE entry whose base rounds up past
4 GB releases a frame that is neither reserved nor inside another entry. -/
structure Clean (boot : BootInfo) : Prop where
  once : (releasedFrames boot).Nodup
  wrapped : ∀ e ∈ boot.mmap, e.usable = true → 0xFFFFF000 < e.base.toNat →
    ∀ f ∈ entryFrames (bootZones boot) e, Reserved boot f ∨ Held boot f

end MainDob.Kernel.Pmm
