/-
Purpose: The exFAT formatter of `libdob/src/exfat_ops.c`: the layout it computes in
  32 bits and the sectors it writes.
Main exports: chooseClusShift, clusShift, Layout
-/
import MainDob.Fs.Block
import MainDob.Fs.Fat32Ops

namespace MainDob.Fs.ExfatOps

open Lib.Bytes

/-- `boot_checksum_add`. -/
def bootChecksumAdd (sum : Nat) (sec : Nat → UInt8) (len : Nat) (first : Bool) :
    Nat :=
  (List.range len).foldl (fun sum i =>
    if first ∧ (i = 106 ∨ i = 107 ∨ i = 112) then sum
    else (sum % 2 * 0x80000000 + sum / 2 + (sec i).toNat) % word32) sum

/-- `upcase_checksum`. -/
def upcaseChecksum (table : List UInt8) : Nat :=
  table.foldl (fun sum byte =>
    (sum % 2 * 0x80000000 + sum / 2 + byte.toNat) % word32) 0

/-- `choose_clus_shift`. -/
def chooseClusShift (sectors bpsShift : Nat) : Nat :=
  let cs := if sectors ≤ 524288 then 12 else if sectors ≤ 67108864 then 15 else 17
  if cs < bpsShift then bpsShift else cs

/-- The cluster size, as a shift: an explicit power of two that suits the volume,
or by the size of the partition. -/
def clusShift (sectors bpsShift : Nat) (opts : Option MkfsOptions) : Option Nat :=
  let asked := opts.elim 0 (·.clusterSize.toNat)
  if asked ≠ 0 ∧ asked &&& (asked - 1) = 0 then
    let cs := Nat.log2 asked
    if cs < bpsShift ∨ cs > 25 then none else some cs
  else some (chooseClusShift sectors bpsShift)

/-- What `exfat_mkfs` decides before it writes. -/
structure Layout where
  bpsShift : Nat
  spcShift : Nat
  volLsec : Nat
  fatLen : Nat
  heapOffset : Nat
  clusterCount : Nat
  bitmapBytes : Nat
  bmpClusters : Nat
deriving DecidableEq, Repr

namespace Layout

/-- `bps`. -/
def bps (layout : Layout) : Nat := 2 ^ layout.bpsShift

/-- Physical sectors in a logical one. -/
def s512 (layout : Layout) : Nat := 2 ^ (layout.bpsShift - 9)

/-- Logical sectors in a cluster. -/
def spc (layout : Layout) : Nat := 2 ^ layout.spcShift

/-- `bitmap_cluster`. -/
def bitmapCluster (_ : Layout) : Nat := 2

/-- `upcase_cluster`. -/
def upcaseCluster (layout : Layout) : Nat := 2 + layout.bmpClusters

/-- `root_cluster`. -/
def rootCluster (layout : Layout) : Nat := layout.upcaseCluster + 1

/-- `used_clusters`. -/
def usedClusters (layout : Layout) : Nat := layout.bmpClusters + 2

/-- The first logical sector of a cluster. -/
def lbaOf (layout : Layout) (cluster : Nat) : Nat :=
  layout.heapOffset + (cluster - 2) * layout.spc

end Layout

/-- `fat_offset`. -/
def fatOffset : Nat := 128

/-- `bps`: the logical sector size that is asked for. -/
def logicalBytes (opts : Option MkfsOptions) : Nat :=
  let asked := opts.elim 0 (·.bytesPerSector.toNat)
  if asked ≠ 0 then asked else 512

/-- `bps_shift`. -/
def bpsShiftOf (bps : Nat) : Nat := if bps = 4096 then 12 else 9

/-- The checks of `exfat_mkfs` and its layout.  A mask that clears the low bits is
the multiple below. -/
def exfatLayout (sectors : Nat) (opts : Option MkfsOptions) : Option Layout :=
  let bps := logicalBytes opts
  if bps ≠ 512 ∧ bps ≠ 4096 then none
  else if sectors < 2048 then none
  else
    let bpsShift := bpsShiftOf bps
    let volLsec := sectors / 2 ^ (bpsShift - 9)
    if volLsec < 64 then none
    else
      match clusShift sectors bpsShift opts with
      | none => none
      | some clusShift =>
        let spcShift := clusShift - bpsShift
        let spc := 2 ^ spcShift
        let clusterBytes := 2 ^ clusShift
        let estClusters := (volLsec + word32 - fatOffset) % word32 / spc
        let fatBytes := (estClusters + 2) * 4 % word32
        let fatLen := (fatBytes + (bps - 1)) % word32 / bps
        let heapOffset := (fatOffset + fatLen + (spc - 1)) % word32 / spc * spc
        let clusterCount := (volLsec + word32 - heapOffset) % word32 / spc
        if clusterCount < 4 then none
        else
          let bitmapBytes := (clusterCount + 7) % word32 / 8
          let bmpClusters := (bitmapBytes + clusterBytes - 1) % word32 / clusterBytes
          let layout : Layout := {
            bpsShift := bpsShift
            spcShift := spcShift
            volLsec := volLsec
            fatLen := (heapOffset + word32 - fatOffset) % word32
            heapOffset := heapOffset
            clusterCount := clusterCount
            bitmapBytes := bitmapBytes
            bmpClusters := bmpClusters }
          if layout.rootCluster ≥ bps / 4 then none else some layout

/-! ### What is written -/

/-- The up-case table: as it is, but for the letters a to z. -/
def upcaseTable : List UInt8 :=
  [0xFF, 0xFF, 0x61, 0x00] ++
    (List.range 26).flatMap (fun i => [UInt8.ofNat (0x41 + i), 0x00]) ++ [0xFF, 0xFF, 0x85, 0xFF]

/-- The boot code: halts. -/
def bootCode : List UInt8 := List.replicate 390 0xF4

@[simp] theorem length_bootCode : bootCode.length = 390 := List.length_replicate

/-- The Main Boot Sector. -/
def bootSector (layout : Layout) : Nat → UInt8 :=
  (zeroSector : Sector)
    |> putBytes 0 [0xEB, 0x76, 0x90]
    |> putBytes 3 [0x45, 0x58, 0x46, 0x41, 0x54, 0x20, 0x20, 0x20]
    |> putBytes 72 (leBytes 4 layout.volLsec)
    |> putBytes 80 (leBytes 4 fatOffset)
    |> putBytes 84 (leBytes 4 layout.fatLen)
    |> putBytes 88 (leBytes 4 layout.heapOffset)
    |> putBytes 92 (leBytes 4 layout.clusterCount)
    |> putBytes 96 (leBytes 4 layout.rootCluster)
    |> putBytes 100 [0x4E, 0x49, 0x41, 0x4D, 0x00, 0x01]
    |> putBytes 108 (leBytes 1 layout.bpsShift)
    |> putBytes 109 (leBytes 1 layout.spcShift)
    |> putBytes 110 [1, 0x80,
        UInt8.ofNat (layout.usedClusters * 100 % word32 / layout.clusterCount)]
    |> putBytes 120 bootCode
    |> putBytes 510 [0x55, 0xAA]

/-- An Extended Boot Sector. -/
def extendedSector (layout : Layout) : Nat → UInt8 :=
  putBytes (layout.bps - 4) [0x00, 0x00, 0x55, 0xAA] zeroSector

/-- The Boot Checksum sector: the sum of the eleven before it, over and over. -/
def checksumSector (layout : Layout) : Nat → UInt8 :=
  let sum := bootChecksumAdd 0 (bootSector layout) layout.bps true
  let sum := (List.range 8).foldl (fun sum _ =>
    bootChecksumAdd sum (extendedSector layout) layout.bps false) sum
  let sum := (List.range 2).foldl (fun sum _ =>
    bootChecksumAdd sum zeroSector layout.bps false) sum
  fun i => ((leBytes 4 sum)[i % 4]?).getD 0

def exfatEoc : Nat := 0xFFFFFFFF

/-- The first sector of the FAT: the chain of the bitmap and two clusters that
end. -/
def fatSector (layout : Layout) : Nat → UInt8 :=
  let marks := (zeroSector : Sector)
    |> putBytes 0 (leBytes 4 0xFFFFFFF8)
    |> putBytes 4 (leBytes 4 0xFFFFFFFF)
  let chained := (List.range layout.bmpClusters).foldl (fun sec i =>
    let cl := layout.bitmapCluster + i
    let nx := if i + 1 < layout.bmpClusters then cl + 1 else exfatEoc
    putBytes (cl * 4) (leBytes 4 nx) sec) marks
  chained
    |> putBytes (layout.upcaseCluster * 4) (leBytes 4 exfatEoc)
    |> putBytes (layout.rootCluster * 4) (leBytes 4 exfatEoc)

/-- A bitmap with the first bits set. -/
def setBits (count : Nat) : Nat → UInt8 :=
  (List.range count).foldl (fun sec i =>
    putBytes (i / 8) [UInt8.ofNat ((sec (i / 8)).toNat ||| 2 ^ (i % 8))] sec)
    zeroSector

/-- The root directory: the label, the bitmap and the up-case table. -/
def rootSector (layout : Layout) (label : Option (List UInt8)) : Nat → UInt8 :=
  let chars := ((label.getD []).take 11).map Fat32Ops.upper
  (zeroSector : Sector)
    |> putBytes 0 [0x83]
    |> putBytes 2 (chars.flatMap fun c => [c, 0x00])
    |> putBytes 1 [UInt8.ofNat chars.length]
    |> putBytes 32 [0x81]
    |> putBytes (32 + 20) (leBytes 4 layout.bitmapCluster)
    |> putBytes (32 + 24) (leBytes 4 layout.bitmapBytes)
    |> putBytes 64 [0x82]
    |> putBytes (64 + 4) (leBytes 4 (upcaseChecksum upcaseTable))
    |> putBytes (64 + 20) (leBytes 4 layout.upcaseCluster)
    |> putBytes (64 + 24) [60]

/-- The request for a logical sector. -/
def writeLsec (layout : Layout) (base lsec : Nat) (sec : Nat → UInt8) : Write :=
  ⟨(base + lsec * layout.s512) % word32, layout.s512, sec⟩

/-- Logical sectors with `sec` in the first and zeros in the others. -/
def writeRegion (layout : Layout) (base lsec count : Nat) (sec : Nat → UInt8) :
    List Write :=
  writeLsec layout base lsec sec ::
    if count > 1 then
      zeroRegion ((base + (lsec + 1) * layout.s512) % word32) ((count - 1) * layout.s512 % word32)
    else []

/-- A sector of the boot region, and its copy. -/
def writeBoot (layout : Layout) (base lsec : Nat) (sec : Nat → UInt8) :
    List Write :=
  [writeLsec layout base lsec sec, writeLsec layout base (lsec + 12) sec]

/-- The requests of `exfat_mkfs`. -/
def exfatWrites (layout : Layout) (base : Nat) (label : Option (List UInt8)) :
    List Write :=
  writeBoot layout base 0 (bootSector layout) ++
  ([1, 2, 3, 4, 5, 6, 7, 8].flatMap fun s =>
    writeBoot layout base s (extendedSector layout)) ++
  ([9, 10].flatMap fun s => writeBoot layout base s zeroSector) ++
  writeBoot layout base 11 (checksumSector layout) ++
  (writeRegion layout base fatOffset layout.fatLen (fatSector layout) ++
  (writeRegion layout base (layout.lbaOf layout.bitmapCluster)
    (layout.bmpClusters * layout.spc) (setBits layout.usedClusters) ++
  (writeRegion layout base (layout.lbaOf layout.upcaseCluster) layout.spc
    (putBytes 0 upcaseTable zeroSector) ++
  writeRegion layout base (layout.lbaOf layout.rootCluster) layout.spc (rootSector layout label))))

/-- `exfat_mkfs`. -/
def exfatMkfs (d : Device) (start sectors : UInt32) (opts : Option MkfsOptions) : Bool × Device :=
  match exfatLayout sectors.toNat opts with
  | none => (false, d)
  | some layout =>
    writeAll (exfatWrites layout start.toNat (opts.bind (·.label))) d

end MainDob.Fs.ExfatOps
