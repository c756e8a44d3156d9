/-
Purpose: The formatter of the exFAT driver, `boot/DobFileSystem/exfat.c`: its layout with 64-bit
  shifts, the sectors it makes and the requests it passes to its callback.
Main exports: shl64, shr64, exfatLayout
-/
import MainDob.Fs.ExfatOps

namespace MainDob.Fs.ExfatDriver

open Lib.Bytes
open ExfatOps (Layout)

/-- 2^64. -/
def word64 : Nat := 2 ^ 64

/-- `shl64`: a shift to the left in two halves. -/
def shl64 (x s : Nat) : Nat :=
  let lo := x % word32
  let hi := x / word32
  if s = 0 then x
  else if s ≥ 32 then (lo <<< (s - 32) % word32) <<< 32
  else (hi <<< s % word32 ||| lo >>> (32 - s)) <<< 32 ||| lo <<< s % word32

/-- `shr64`: a shift to the right in two halves. -/
def shr64 (x s : Nat) : Nat :=
  let lo := x % word32
  let hi := x / word32
  if s = 0 then x
  else if s ≥ 32 then hi >>> (s - 32)
  else (hi >>> s) <<< 32 ||| (lo >>> s ||| hi <<< (32 - s) % word32)

/-! ### The layout -/

/-- `bps_shift`. -/
def bpsShiftOf (bytesPerSector : Nat) : Nat :=
  if bytesPerSector = 4096 then 12 else 9

/-- `clus_shift`. -/
def clusShiftOf (sectors bpsShift : Nat) : Nat :=
  let clusShift :=
    if sectors ≤ 524288 then 12 else if sectors ≤ 67108864 then 15 else 17
  if clusShift < bpsShift then bpsShift else clusShift

/-- `fat_offset`. -/
def fatOffset : Nat := 128

/-- The checks of `exfat_mkfs` and its layout, or the code it refuses with. -/
def exfatLayout (sectors bps : Nat) : Except Int Layout :=
  if bps ≠ 512 ∧ bps ≠ 4096 then .error (-3)
  else if sectors < 2048 then .error (-4)
  else
    let bpsShift := bpsShiftOf bps
    let volLsec := shr64 sectors (bpsShift - 9)
    if volLsec < 64 then .error (-4)
    else
      let clusShift := clusShiftOf sectors bpsShift
      let spcShift := clusShift - bpsShift
      let spc := 2 ^ spcShift
      let clusterBytes := 2 ^ clusShift
      let estClusters :=
        shr64 ((volLsec + word64 - fatOffset) % word64) spcShift % word32
      let fatBytes := shl64 (estClusters + 2) 2
      let fatLen := shr64 ((fatBytes + (bps - 1)) % word64) bpsShift % word32
      let heapOffset := (fatOffset + fatLen + (spc - 1)) % word32 / spc * spc
      let clusterCount :=
        shr64 ((volLsec + word64 - heapOffset) % word64) spcShift % word32
      if clusterCount < 4 then .error (-4)
      else
        let bitmapBytes := (clusterCount + 7) % word32 / 8
        let layout : Layout := {
          bpsShift := bpsShift
          spcShift := spcShift
          volLsec := volLsec
          fatLen := (heapOffset + word32 - fatOffset) % word32
          heapOffset := heapOffset
          clusterCount := clusterCount
          bitmapBytes := bitmapBytes
          bmpClusters := (bitmapBytes + clusterBytes - 1) % word32 /
            clusterBytes }
        if layout.rootCluster ≥ bps / 4 then .error (-4) else .ok layout

/-! ### The sectors -/

/-- `boot_checksum_add`. -/
def bootChecksumAdd (sum : Nat) (sec : Nat → UInt8) (len : Nat) (first : Bool) :
    Nat :=
  (List.range len).foldl (fun sum i =>
    if first && (i == 106 || i == 107 || i == 112) then sum
    else ((if sum &&& 1 ≠ 0 then 0x80000000 else 0) + sum >>> 1 + (sec i).toNat) % word32) sum

/-- `upcase_checksum`. -/
def upcaseChecksum (t : Nat → UInt8) (len : Nat) : Nat :=
  (List.range len).foldl (fun sum i =>
    ((if sum &&& 1 ≠ 0 then 0x80000000 else 0) + sum >>> 1 + (t i).toNat) % word32) 0

/-- `up`, the up-case table. -/
def up : Nat → UInt8 :=
  let head := putBytes 0 [0xFF, 0xFF, 0x61, 0x00] (zeroSector : Sector)
  let letters := (List.range 26).foldl (fun up i =>
    putBytes (4 + i * 2) [UInt8.ofNat (0x41 + i), 0x00] up) head
  putBytes 56 [0xFF, 0xFF, 0x85, 0xFF] letters

/-- An Extended Boot Sector. -/
def extendedSector (layout : Layout) : Nat → UInt8 :=
  putBytes (layout.bps - 4) [0x00, 0x00, 0x55, 0xAA] zeroSector

/-- The first sector of the FAT. -/
def fatSector (layout : Layout) : Nat → UInt8 :=
  let marks := putBytes 0 [0xF8, 0xFF, 0xFF, 0xFF, 0xFF, 0xFF, 0xFF, 0xFF] (zeroSector : Sector)
  let chained := (List.range layout.bmpClusters).foldl (fun sec i =>
    let cl := layout.bitmapCluster + i
    let next := if i + 1 < layout.bmpClusters then cl + 1 else 0xFFFFFFFF
    putBytes (cl * 4) (leBytes 4 next) sec) marks
  chained
    |> putBytes (layout.upcaseCluster * 4) [0xFF, 0xFF, 0xFF, 0xFF]
    |> putBytes (layout.rootCluster * 4) [0xFF, 0xFF, 0xFF, 0xFF]

/-- The first sector of the bitmap. -/
def bitmapSector (layout : Layout) : Nat → UInt8 :=
  (List.range layout.usedClusters).foldl (fun sec i =>
    putBytes (i >>> 3) [UInt8.ofNat ((sec (i >>> 3)).toNat ||| 1 <<< (i &&& 7))] sec) zeroSector

/-- The loop of `utf8_to_utf16` from byte `p` on, with room for `room` units. -/
def utf8ToUtf16 (s : Nat → UInt8) : Nat → Nat → Option (List UInt16)
  | 0, p => if s p = 0 then some [] else none
  | room + 1, p =>
    let c := s p
    let low (i : Nat) : UInt16 := (s (p + i) &&& 0x3F).toUInt16
    let goesOn (i : Nat) : Bool := s (p + i) &&& 0xC0 = 0x80
    if c = 0 then some []
    else if c < 0x80 then
      (utf8ToUtf16 s room (p + 1)).map (c.toUInt16 :: ·)
    else if c &&& 0xE0 = 0xC0 then
      if !goesOn 1 then none
      else (utf8ToUtf16 s room (p + 2)).map (((c &&& 0x1F).toUInt16 <<< 6 ||| low 1) :: ·)
    else if c &&& 0xF0 = 0xE0 then
      if !goesOn 1 || !goesOn 2 then none
      else (utf8ToUtf16 s room (p + 3)).map
        (((c &&& 0x0F).toUInt16 <<< 12 ||| low 1 <<< 6 ||| low 2) :: ·)
    else if c &&& 0xF8 = 0xF0 then
      (utf8ToUtf16 s room (p + 4)).map (0x3F :: ·)
    else none

/-! ### The requests -/

/-- The loop of `wr_zeros`; a round takes at least one sector. -/
def wrZerosLoop : Nat → Nat → Nat → List Write
  | 0, _, _ => []
  | fuel + 1, lba, count =>
    if count > 0 then
      let chunk := if count > 8 then 8 else count
      ⟨lba, chunk, fun _ => 0⟩ :: wrZerosLoop fuel ((lba + chunk) % word32) (count - chunk)
    else []

/-- `wr_zeros`. -/
def wrZeros (lba count : Nat) : List Write := wrZerosLoop count lba count

/-- The Main Boot Sector. -/
def bootSector (layout : Layout) : Nat → UInt8 :=
  (zeroSector : Sector)
    |> putBytes 0 [0xEB, 0x76, 0x90]
    |> putBytes 3 [0x45, 0x58, 0x46, 0x41, 0x54, 0x20, 0x20, 0x20]
    |> putBytes 72 (leBytes 8 layout.volLsec)
    |> putBytes 80 (leBytes 4 fatOffset)
    |> putBytes 84 (leBytes 4 layout.fatLen)
    |> putBytes 88 (leBytes 4 layout.heapOffset)
    |> putBytes 92 (leBytes 4 layout.clusterCount)
    |> putBytes 96 (leBytes 4 layout.rootCluster)
    |> putBytes 100 [0x4E, 0x49, 0x41, 0x4D, 0x00, 0x01]
    |> putBytes 108 (leBytes 1 layout.bpsShift)
    |> putBytes 109 (leBytes 1 layout.spcShift)
    |> putBytes 110 [1, 0x80,
        UInt8.ofNat (layout.usedClusters * 100 % word32 / layout.clusterCount)]
    |> putBytes 120 (List.replicate 390 0xF4)
    |> putBytes 510 [0x55, 0xAA]

/-- The Boot Checksum sector. -/
def checksumSector (layout : Layout) : Nat → UInt8 :=
  let sum := bootChecksumAdd 0 (bootSector layout) layout.bps true
  let sum := (List.range 8).foldl (fun sum _ =>
    bootChecksumAdd sum (extendedSector layout) layout.bps false) sum
  let sum := (List.range 2).foldl (fun sum _ =>
    bootChecksumAdd sum zeroSector layout.bps false) sum
  fun i => ((leBytes 4 sum)[i % 4]?).getD 0

/-- The units of a label; one that is no UTF-8 or too long is left out. -/
def labelUnits : Option (Nat → UInt8) → List UInt16
  | none => []
  | some text => if text 0 = 0 then [] else (utf8ToUtf16 text 11 0).getD []

/-- The root directory. -/
def rootSector (layout : Layout) (label : Option (Nat → UInt8)) : Nat → UInt8 :=
  let units := labelUnits label
  (zeroSector : Sector)
    |> putBytes 0 [0x83]
    |> putBytes 2 (units.flatMap fun unit => leBytes 2 unit.toNat)
    |> putBytes 1 [UInt8.ofNat units.length]
    |> putBytes 32 [0x81]
    |> putBytes (32 + 20) (leBytes 4 layout.bitmapCluster)
    |> putBytes (32 + 24) (leBytes 8 layout.bitmapBytes)
    |> putBytes 64 [0x82]
    |> putBytes (64 + 4) (leBytes 4 (upcaseChecksum up 60))
    |> putBytes (64 + 20) (leBytes 4 layout.upcaseCluster)
    |> putBytes (64 + 24) [60]

/-- `wr_lsec`. -/
def wrLsec (layout : Layout) (llba : Nat) (buf : Nat → UInt8) : Write :=
  ⟨llba * layout.s512 % word32, layout.s512, buf⟩

/-- Logical sectors with `sec` in the first and zeros in the others. -/
def wrRegion (layout : Layout) (llba count : Nat) (sec : Nat → UInt8) :
    List Write :=
  wrLsec layout llba sec ::
    if count > 1 then
      wrZeros ((llba + 1) * layout.s512 % word32) ((count - 1) * layout.s512 % word32)
    else []

/-- A sector of the boot region, and its copy. -/
def wrBoot (layout : Layout) (llba : Nat) (sec : Nat → UInt8) : List Write :=
  [wrLsec layout llba sec, wrLsec layout (llba + 12) sec]

/-- The requests of `exfat_mkfs`. -/
def exfatWrites (layout : Layout) (label : Option (Nat → UInt8)) : List Write :=
  wrBoot layout 0 (bootSector layout) ++
  ([1, 2, 3, 4, 5, 6, 7, 8].flatMap fun s =>
    wrBoot layout s (extendedSector layout)) ++
  ([9, 10].flatMap fun s => wrBoot layout s zeroSector) ++
  wrBoot layout 11 (checksumSector layout) ++
  (wrRegion layout fatOffset layout.fatLen (fatSector layout) ++
  (wrRegion layout (layout.lbaOf layout.bitmapCluster)
    (layout.bmpClusters * layout.spc) (bitmapSector layout) ++
  (wrRegion layout (layout.lbaOf layout.upcaseCluster) layout.spc up ++
  wrRegion layout (layout.lbaOf layout.rootCluster) layout.spc (rootSector layout label))))

/-- Requests to the callback in their order, up to the first that fails. -/
def wrAll {σ : Type} (wr : σ → Write → Int × σ) : List Write → σ → Int × σ
  | [], ctx => (0, ctx)
  | w :: rest, ctx =>
    let (code, ctx) := wr ctx w
    if code ≠ 0 then (-2, ctx) else wrAll wr rest ctx

/-- `exfat_wr` of `main.c`, the callback on a disk whose partition starts at
`start`. -/
def exfatWr (start : Nat) (d : Device) (w : Write) : Int × Device :=
  let (ok, d) := blockWrite d { w with lba := (start + w.lba) % word32 }
  (if ok then 0 else -1, d)

/-- `exfat_mkfs`. -/
def exfatMkfs {σ : Type} (wr : σ → Write → Int × σ) (ctx : σ) (sectors : UInt64)
    (bytesPerSector : UInt32) (label : Option (Nat → UInt8)) : Int × σ :=
  match exfatLayout sectors.toNat bytesPerSector.toNat with
  | .error code => (code, ctx)
  | .ok layout => wrAll wr (exfatWrites layout label) ctx

end MainDob.Fs.ExfatDriver
