/-
Purpose: How `boot/DobFileSystem/main.c` takes a boot sector: the test for exFAT
  and the checks and sums of `fat32_mount`.
Main exports: Sector, sectorSize, Geometry
-/
import MainDob.Lib.Bytes

namespace MainDob.Fs

open Lib.Bytes

def sectorSize : Nat := 512

/-- The values of a `uint32_t`. -/
def word32 : Nat := 2 ^ 32

/-- The bytes of a sector, by offset. -/
abbrev Sector := Nat → UInt8

/-- A sector of zeros. -/
def zeroSector : Sector := fun _ => 0

/-- `fs`, as far as it is about the volume. -/
structure Geometry where
  sectorsPerCluster : Nat
  fatStartLba : Nat
  fatSizeSectors : Nat
  numFats : Nat
  rootCluster : Nat
  partitionSectors : Nat
  dataStartLba : Nat
  totalClusters : Nat
deriving DecidableEq, Repr

/-- `"EXFAT   "` at byte 3. -/
def isExfat (boot : Sector) : Bool :=
  (List.range 8).map (fun i => boot (3 + i)) = [0x45, 0x58, 0x46, 0x41, 0x54, 0x20, 0x20, 0x20]

/-- A power of two from 1 to 128. -/
def validSpc (spc : Nat) : Bool :=
  spc ∈ [1, 2, 4, 8, 16, 32, 64, 128]

/-- `fat32_mount` on a boot sector that is not exFAT: the checks of the fields of
`fat32_bpb_t`, and the geometry. -/
def fat32Parse (boot : Sector) : Option Geometry :=
  let bytesPerSector := getLe 2 11 boot
  let spc := getLe 1 13 boot
  let reserved := getLe 2 14 boot
  let numFats := getLe 1 16 boot
  let rootEntryCount := getLe 2 17 boot
  let totalSectors16 := getLe 2 19 boot
  let fatSize16 := getLe 2 22 boot
  let totalSectors32 := getLe 4 32 boot
  let fatSize32 := getLe 4 36 boot
  let rootCluster := getLe 4 44 boot
  let total := if totalSectors32 = 0 then totalSectors16 else totalSectors32
  if bytesPerSector ≠ sectorSize then none
  else if fatSize16 ≠ 0 ∨ rootEntryCount ≠ 0 then none
  else if validSpc spc = false then none
  else if numFats = 0 ∨ numFats > 2 then none
  else if reserved = 0 then none
  else if fatSize32 = 0 then none
  else if total = 0 then none
  else if reserved + numFats * fatSize32 ≥ total then none
  else if rootCluster < 2 then none
  else
    some {
      sectorsPerCluster := spc
      fatStartLba := reserved
      fatSizeSectors := fatSize32
      numFats := numFats
      rootCluster := rootCluster
      partitionSectors := total
      dataStartLba := reserved + numFats * fatSize32
      totalClusters := (total - reserved - numFats * fatSize32) / spc }

end MainDob.Fs
