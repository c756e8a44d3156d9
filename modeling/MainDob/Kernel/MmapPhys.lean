/-
Purpose: sys_mmap_phys of kernel/syscall/driver.c, which maps physical pages into a
  driver, with its deny list over the frame allocator and the driver's regions.
Trusted boundary: a call is one step; `kernelPhysEnd` is where the linker put
  `_kernel_phys_end`
Main exports: pmmIsFrameAllocated, pmmGetRamTop, denied
-/
import MainDob.Kernel.Pmm
import MainDob.Kernel.Vregion

namespace MainDob.Kernel.MmapPhys

open Pmm (Zones addrToFrame frameToAddr frameIsUsed)
open Regions

/-- `pmm_is_frame_allocated`: above the RAM nothing is. -/
def pmmIsFrameAllocated (z : Zones) (s : Pmm.State) (physAddr : Nat) : Bool :=
  let f := addrToFrame (BitVec.ofNat 32 physAddr)
  if z.totalFrames ≤ f then false else frameIsUsed s f

/-- `pmm_get_ram_top`. -/
def pmmGetRamTop (z : Zones) : Nat := (frameToAddr z.totalFrames).toNat

/-- `kstart`. -/
def kstart : Nat := 0x00100000

/-- Page `i` from a physical page on, as the loops compute it. -/
def physPage (physAddr i : Nat) : Nat := add32 physAddr (mul32 i pageSize)

/-- The checks of `sys_mmap_phys`, for a range that is rounded to pages. -/
def denied (kernelPhysEnd : Nat) (z : Zones) (s : Pmm.State) (physAddr size : Nat) :
    Bool :=
  let pages := size / pageSize
  let physEnd := add32 physAddr size
  let legacyVga := decide (0xA0000 ≤ physAddr ∧ physEnd ≤ 0xC0000)
  if physAddr = 0 ∨ physAddr < 0x1000 then true
  else if kstart < physEnd ∧ physAddr < alignUp kernelPhysEnd then true
  else if 4096 < pages then true
  else if physAddr < pmmGetRamTop z ∧ !legacyVga then
    (List.range pages).any fun p => pmmIsFrameAllocated z s (physPage physAddr p)
  else false

/-- `sys_mmap_phys`: the address it returns, 0 for a refusal, and the pages it maps
to physical ones; `fresh` is what the allocation of the region gets. -/
def sysMmapPhys (kernelPhysEnd : Nat) (z : Zones) (s : Pmm.State) (space : Space) (isDriver : Bool)
    (physAddr size : Nat) (fresh : Option Nat) : Option (Space × Nat × List (Nat × Nat)) :=
  if !isDriver ∨ size = 0 then some (space, 0, [])
  else
    let offset := physAddr % pageSize
    let physAddr := alignDown physAddr
    let size := alignUp (add32 size offset)
    let pages := size / pageSize
    if denied kernelPhysEnd z s physAddr size then some (space, 0, [])
    else do
      let (space, virt) ← vregionAlloc space pages 0x80000000 0xBFFDFFFF
        (vregDevice ||| vregUserRw) (-1) fresh
      if virt = 0 then return (space, 0, [])
      return (space, add32 virt offset, (List.range pages).map fun i =>
        (add32 virt (mul32 i pageSize), physPage physAddr i))

end MainDob.Kernel.MmapPhys
