/-
Purpose: `block_write` of `libdob/src/block.c` on one disk, the requests the
  formatters of libdob make of it one after the other, and what `mkfs` is asked
  for.
Trusted boundary: a driver takes every request that ends on the disk and writes
  the sectors from its LBA on.
Main exports: Device, Write, blockWrite
-/
import MainDob.Fs.Mount

namespace MainDob.Fs

/-- A disk, with the requests that were written to it: LBA and sectors, the
oldest first. -/
structure Device where
  disk : Nat → Sector
  totalSectors : Nat
  written : List (Nat × Nat)

/-- The arguments of a `block_write`. -/
structure Write where
  lba : Nat
  count : Nat
  buf : Nat → UInt8

/-- The sectors after a write. -/
def Write.apply (w : Write) (disk : Nat → Sector) : Nat → Sector :=
  fun sector i =>
    if w.lba ≤ sector ∧ sector < w.lba + w.count then
      w.buf ((sector - w.lba) * sectorSize + i)
    else disk sector i

/-- `block_write`. -/
def blockWrite (d : Device) (w : Write) : Bool × Device :=
  if w.count = 0 then (false, d)
  else if w.lba + w.count > d.totalSectors then (false, d)
  else (true, { d with
    disk := w.apply d.disk
    written := d.written ++ [(w.lba, w.count)] })

/-- Requests in their order, up to the first that fails: each stands for an
`if (!block_write(..)) return false`. -/
def writeAll : List Write → Device → Bool × Device
  | [], d => (true, d)
  | w :: rest, d =>
    let (ok, d) := blockWrite d w
    if ok then writeAll rest d else (false, d)

def zeroChunkSectors : Nat := 64

/-- The loop of `zero_region`; a round takes at least one sector. -/
def zeroRegionLoop : Nat → Nat → Nat → List Write
  | 0, _, _ => []
  | fuel + 1, startLba, count =>
    if count > 0 then
      let n := if count > zeroChunkSectors then zeroChunkSectors else count
      ⟨startLba, n, fun _ => 0⟩ :: zeroRegionLoop fuel ((startLba + n) % word32) (count - n)
    else []

/-- `zero_region`, the same in `fat32_ops.c` and `exfat_ops.c`. -/
def zeroRegion (startLba count : Nat) : List Write :=
  zeroRegionLoop count startLba count

/-- `mkfs_options_t`.  A label is its bytes up to the NUL. -/
structure MkfsOptions where
  label : Option (List UInt8)
  numFats : UInt8
  bytesPerSector : UInt32
  clusterSize : UInt32

end MainDob.Fs
