/-
Purpose: The FAT32 formatter of `libdob/src/fat32_ops.c`: the sizes it computes in
  32 bits and the sectors it writes.
Main exports: chooseSectorsPerCluster, computeFatSize32, fat32Bpb
-/
import MainDob.Fs.Block
import MainDob.Fs.Fat

namespace MainDob.Fs.Fat32Ops

open Lib.Bytes

/-- `choose_sectors_per_cluster`. -/
def chooseSectorsPerCluster (sectors : Nat) : Nat :=
  let mb := sectors / 2048
  if mb < 64 then 1
  else if mb < 128 then 2
  else if mb < 256 then 4
  else if mb < 8 * 1024 then 8
  else if mb < 16 * 1024 then 16
  else if mb < 32 * 1024 then 32
  else 64

/-- `compute_fat_size_32`. -/
def computeFatSize32 (totalSectors reserved numFats sectorsPerCluster : Nat) :
    Nat :=
  let numerator := (totalSectors + word32 - reserved) % word32
  let denominator := 128 * sectorsPerCluster + numFats
  (numerator + denominator - 1) % word32 / denominator

/-- `make_volume_id`; the two addresses are those the linker gave to the function
itself and to `malloc`. -/
def makeVolumeId (self mallocAt start sectors : UInt32) : UInt32 :=
  let v := 0xDEADBEEF ^^^ start
  let v := v * 1664525
  let v := v + sectors
  let v := v ^^^ self
  let v := v * 1013904223
  let v := v ^^^ mallocAt
  if v = 0 then 0x12345678 else v

/-- ASCII letters in capitals. -/
def upper (c : UInt8) : UInt8 := if 97 ≤ c ∧ c ≤ 122 then c - 32 else c

/-- `fill_volume_label`: eleven bytes. -/
def fillVolumeLabel (label : Option (List UInt8)) : List UInt8 :=
  let noName : List UInt8 :=
    [0x4E, 0x4F, 0x20, 0x4E, 0x41, 0x4D, 0x45, 0x20, 0x20, 0x20, 0x20]
  let source := match label with
    | none => noName
    | some [] => noName
    | some bytes => bytes
  let copied := (source.take 11).map upper
  copied ++ List.replicate (11 - copied.length) 0x20

def defaultReserved : Nat := 32

/-- What `fat32_mkfs` decides before it writes. -/
structure Layout where
  numFats : Nat
  sectorsPerClus : Nat
  fatSize : Nat
deriving DecidableEq, Repr

/-- The number of FATs. -/
def chooseNumFats (opts : Option MkfsOptions) : Nat :=
  let asked := opts.elim 2 fun o => if o.numFats ≠ 0 then o.numFats.toNat else 2
  if asked < 1 ∨ asked > 2 then 2 else asked

/-- The sectors of a cluster: an explicit size has to be a power of two of them,
up to 128. -/
def chooseSpc (sectors : Nat) (opts : Option MkfsOptions) : Option Nat :=
  let asked := opts.elim 0 (·.clusterSize.toNat)
  if asked ≠ 0 then
    let spc := asked / sectorSize
    if spc < 1 ∨ spc > 128 ∨ spc &&& (spc - 1) ≠ 0 ∨ spc * sectorSize ≠ asked then
      none
    else some spc
  else some (chooseSectorsPerCluster sectors)

/-- The checks of `fat32_mkfs` and its sizes. -/
def fat32Layout (sectors : Nat) (opts : Option MkfsOptions) : Option Layout :=
  let bytesPerSector := opts.elim 0 (·.bytesPerSector.toNat)
  if sectors < 1024 then none
  else if bytesPerSector ≠ 0 ∧ bytesPerSector ≠ sectorSize then none
  else
    match chooseSpc sectors opts with
    | none => none
    | some spc =>
      let numFats := chooseNumFats opts
      let fatSize := computeFatSize32 sectors defaultReserved numFats spc
      if (defaultReserved + numFats * fatSize + spc) % word32 > sectors then none
      else some ⟨numFats, spc, fatSize⟩

/-- The boot sector, a `fat32_bpb_t`. -/
def fat32Bpb (layout : Layout) (start sectors volumeId : UInt32)
    (label : Option (List UInt8)) : Sector :=
  (zeroSector : Sector)
    |> putBytes 0 [0xEB, 0x58, 0x90]
    |> putBytes 3 [0x4D, 0x41, 0x49, 0x4E, 0x44, 0x4F, 0x42, 0x20]
    |> putBytes 11 (leBytes 2 sectorSize)
    |> putBytes 13 (leBytes 1 layout.sectorsPerClus)
    |> putBytes 14 (leBytes 2 defaultReserved)
    |> putBytes 16 (leBytes 1 layout.numFats)
    |> putBytes 21 [0xF8]
    |> putBytes 24 [63, 0, 255, 0]
    |> putBytes 28 (leBytes 4 start.toNat)
    |> putBytes 32 (leBytes 4 sectors.toNat)
    |> putBytes 36 (leBytes 4 layout.fatSize)
    |> putBytes 44 (leBytes 4 2)
    |> putBytes 48 [1, 0, 6, 0]
    |> putBytes 64 [0x80, 0, 0x29]
    |> putBytes 67 (leBytes 4 volumeId.toNat)
    |> putBytes 71 (fillVolumeLabel label)
    |> putBytes 82 [0x46, 0x41, 0x54, 0x33, 0x32, 0x20, 0x20, 0x20]
    |> putBytes 510 [0x55, 0xAA]

/-- The FSInfo sector. -/
def fat32Fsinfo (layout : Layout) (sectors : Nat) : Sector :=
  let dataSectors := (sectors + word32 - defaultReserved + word32 -
    layout.numFats * layout.fatSize % word32) % word32
  let totalClusters := dataSectors / layout.sectorsPerClus
  (zeroSector : Sector)
    |> putBytes 0 (leBytes 4 0x41615252)
    |> putBytes 484 (leBytes 4 0x61417272)
    |> putBytes 488 (leBytes 4 ((totalClusters + word32 - 1) % word32))
    |> putBytes 492 (leBytes 4 3)
    |> putBytes 508 (leBytes 4 0xAA550000)

/-- The first sector of a FAT. -/
def fatFirst : Sector :=
  (zeroSector : Sector)
    |> putBytes 0 (leBytes 4 fat32EocMin)
    |> putBytes 4 (leBytes 4 fat32Eoc)
    |> putBytes 8 (leBytes 4 fat32Eoc)

/-- The requests for the `f`-th FAT. -/
def fatWrites (layout : Layout) (start f : Nat) : List Write :=
  let fatLba := (start + defaultReserved + f * layout.fatSize) % word32
  ⟨fatLba, 1, fatFirst⟩ ::
    if layout.fatSize > 1 then
      zeroRegion ((fatLba + 1) % word32) (layout.fatSize - 1)
    else []

/-- The requests of `fat32_mkfs`. -/
def fat32Writes (layout : Layout) (start sectors volumeId : UInt32)
    (label : Option (List UInt8)) : List Write :=
  let bpb := fat32Bpb layout start sectors volumeId label
  [⟨start.toNat, 1, bpb⟩, ⟨(start.toNat + 6) % word32, 1, bpb⟩,
    ⟨(start.toNat + 1) % word32, 1, fat32Fsinfo layout sectors.toNat⟩] ++
  ((List.range layout.numFats).flatMap (fatWrites layout start.toNat) ++
    zeroRegion ((start.toNat + defaultReserved +
      layout.numFats * layout.fatSize) % word32) layout.sectorsPerClus)

/-- `fat32_mkfs`. -/
def fat32Mkfs (self mallocAt : UInt32) (d : Device) (start sectors : UInt32)
    (opts : Option MkfsOptions) : Bool × Device :=
  match fat32Layout sectors.toNat opts with
  | none => (false, d)
  | some layout =>
    writeAll (fat32Writes layout start sectors
      (makeVolumeId self mallocAt start sectors) (opts.bind (·.label))) d

end MainDob.Fs.Fat32Ops
