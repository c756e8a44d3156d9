/-
Purpose: The reading half of `boot/DobFileSystem/exfat.c`: the geometry, the FAT
  entries, the directory cursor, the entry sets and the mount.
Main exports: Reader, Volume, clusterLba512
-/
import MainDob.Fs.Mount

namespace MainDob.Fs.Exfat

open Lib.Bytes

/-- `rd`, for one sector. -/
abbrev Reader := Nat → Option Sector

/-- `exfat_volume_t`.  A FAT cache that is not valid is no cache. -/
structure Volume where
  bpsShift : Nat
  spcShift : Nat
  cszShift : Nat
  s512Shift : Nat
  fatOffset : Nat
  fatLength : Nat
  clusterHeap : Nat
  clusterCount : Nat
  rootCluster : Nat
  numFats : Nat
  bitmapCluster : Nat
  bitmapBytes : Nat
  upcaseCluster : Nat
  upcaseBytes : Nat
  nextFree : Nat
  fatCache : Option (Nat × Sector)

/-- `FAT_BAD`: a bad cluster or the end of a chain, from here on. -/
def fatBad : Nat := 0xFFFFFFF7

/-- `cluster_lba512`. -/
def clusterLba512 (v : Volume) (cluster : Nat) : Option Nat :=
  let exlog := v.clusterHeap + (cluster + word32 - 2) % word32 * 2 ^ v.spcShift
  let lba := exlog * 2 ^ v.s512Shift
  if lba > 0xFFFFFFFF then none else some lba

/-- The sector of the FAT cache; one that could not be read leaves none. -/
def fatSector (rd : Reader) (v : Volume) (lba : Nat) : Option Sector × Volume :=
  match v.fatCache with
  | some (cached, bytes) =>
    if cached = lba then (some bytes, v)
    else ((rd lba), { v with fatCache := (rd lba).map (lba, ·) })
  | none => ((rd lba), { v with fatCache := (rd lba).map (lba, ·) })

/-- `fat_next`. -/
def fatNext (rd : Reader) (v : Volume) (cluster : Nat) : Option Nat × Volume :=
  let fatByte := v.fatOffset * 2 ^ v.bpsShift + cluster * 4
  let lba := fatByte / 512
  if lba > 0xFFFFFFFF then (none, v)
  else
    let (bytes, v) := fatSector rd v lba
    (bytes.map (getLe 4 (fatByte % 512)), v)

/-! ### Directories -/

/-- `dir_cur_t`; the sector is there once it is loaded. -/
structure DirCur where
  cluster : Nat
  contiguous : Bool
  sized : Bool
  bytesLeft : Nat
  secInClus : Nat
  entInSec : Nat
  entryIndex : Nat
  hops : Nat
  sec : Option Sector

/-- `dir_cur_init`. -/
def dirCurInit (cluster : Nat) (contiguous sized : Bool) (size : Nat) : DirCur :=
  ⟨cluster, contiguous, sized, size, 0, 0, 0, 0, none⟩

/-- What a cursor answers: an entry, the end of the directory, or an error. -/
inductive Next where
  | entry (bytes : Nat → UInt8)
  | finished
  | error

/-- The sector a cursor is in. -/
def dirCurSector (rd : Reader) (v : Volume) (c : DirCur) : Option Sector :=
  match c.sec with
  | some sec => some sec
  | none => (clusterLba512 v c.cluster).bind fun base => rd (base + c.secInClus)

/-- The step to the next sector, and where a cluster is at its end to the next
cluster.  `none` is a cursor that goes on. -/
def dirCurAdvance (rd : Reader) (v : Volume) (c : DirCur) : Option Next × Volume × DirCur :=
  let c := { c with entInSec := 0, sec := none, secInClus := c.secInClus + 1 }
  if c.secInClus ≥ 2 ^ (v.cszShift - 9) then
    let c := { c with secInClus := 0, hops := c.hops + 1 }
    if c.hops > v.clusterCount then (some .error, v, c)
    else if c.contiguous then
      (none, v, { c with cluster := (c.cluster + 1) % word32 })
    else
      match fatNext rd v c.cluster with
      | (none, v) => (some .error, v, c)
      | (some nx, v) =>
        if nx < 2 ∨ nx ≥ fatBad then (some .finished, v, { c with cluster := 0 })
        else (none, v, { c with cluster := nx })
  else (none, v, c)

/-- One round of the loop of `dir_cur_next`. -/
def dirCurRound (rd : Reader) (v : Volume) (c : DirCur) : Option Next × Volume × DirCur :=
  if c.cluster < 2 then (some .finished, v, c)
  else if c.sized && c.bytesLeft = 0 then (some .finished, v, c)
  else
    match dirCurSector rd v c with
    | none => (some .error, v, c)
    | some sec =>
      let c := { c with sec := some sec }
      if c.entInSec < 16 then
        (some (.entry fun i => sec (c.entInSec * 32 + i)), v, { c with
          entInSec := c.entInSec + 1
          entryIndex := c.entryIndex + 1
          bytesLeft := if c.sized then c.bytesLeft - 32 else c.bytesLeft })
      else dirCurAdvance rd v c

/-- `dir_cur_next`.  After an advance the cursor is at the first entry of a
sector, so the second round answers. -/
def dirCurNext (rd : Reader) (v : Volume) (c : DirCur) : Next × Volume × DirCur :=
  match dirCurRound rd v c with
  | (some next, v, c) => (next, v, c)
  | (none, v, c) =>
    match dirCurRound rd v c with
    | (some next, v, c) => (next, v, c)
    | (none, v, c) => (.error, v, c)

/-- `file_info_t`, with the name in UTF-16. -/
structure FileInfo where
  name : List Nat
  firstCluster : Nat
  size : Nat
  valid : Nat
  isDir : Bool
  contiguous : Bool
  setIndex : Nat
  setCount : Nat

/-- `entry_set_checksum`. -/
def entrySetChecksum (entries : Nat → UInt8) (count : Nat) : Nat :=
  (List.range (count * 32)).foldl (fun sum i =>
    if i = 2 ∨ i = 3 then sum
    else (sum % 2 * 0x8000 + sum / 2 + (entries i).toNat) % 2 ^ 16) 0

/-- The secondary entries of a set, as far as there are any, put behind the ones
that are already there. -/
def secondaries (rd : Reader) : Nat → Nat → Volume → DirCur → (Nat → UInt8) →
    Bool × Volume × DirCur × (Nat → UInt8)
  | 0, _, v, c, set => (true, v, c, set)
  | left + 1, i, v, c, set =>
    match dirCurNext rd v c with
    | (.error, v, c) => (false, v, c, set)
    | (.finished, v, c) => (true, v, c, set)
    | (.entry bytes, v, c) =>
      secondaries rd left (i + 1) v c fun at_ =>
        if (1 + i) * 32 ≤ at_ ∧ at_ < (2 + i) * 32 then bytes (at_ - (1 + i) * 32)
        else set at_

/-- The units of the File Name entries of a set, entry by entry. -/
def setName (set : Nat → UInt8) (secondary nameLength : Nat) : List Nat :=
  ((((List.range (secondary + 1)).drop 2).filter
    fun idx => set (idx * 32) = 0xC1).flatMap fun idx =>
      (List.range 15).map fun k => getLe 2 (idx * 32 + 2 + k * 2) set).take
    nameLength

/-- The entry set as a file, where it is one. -/
def setInfo (set : Nat → UInt8) (secondary index : Nat) : Option FileInfo :=
  if entrySetChecksum set (1 + secondary) ≠ getLe 2 2 set then none
  else if set 32 ≠ 0xC0 then none
  else
    some {
      name := setName set secondary (set 35).toNat
      firstCluster := getLe 4 (32 + 20) set
      size := getLe 8 (32 + 24) set
      valid := getLe 8 (32 + 8) set
      isDir := (getLe 2 4 set).testBit 4
      contiguous := ((set 33).toNat).testBit 1
      setIndex := index
      setCount := 1 + secondary }

/-- What `dir_next_file` answers. -/
inductive NextFile where
  | file (info : FileInfo)
  | finished
  | error

/-- The loop of `dir_next_file`, with a bound on its rounds. -/
def dirNextFileLoop (rd : Reader) : Nat → Volume → DirCur → NextFile × Volume × DirCur
  | 0, v, c => (.error, v, c)
  | fuel + 1, v, c =>
    match dirCurNext rd v c with
    | (.error, v, c) => (.error, v, c)
    | (.finished, v, c) => (.finished, v, c)
    | (.entry e, v, c) =>
      if e 0 = 0 then (.finished, v, c)
      else if e 0 ≠ 0x85 then dirNextFileLoop rd fuel v c
      else if (e 1).toNat < 2 ∨ (e 1).toNat > 18 then
        dirNextFileLoop rd fuel v c
      else
        let index := c.entryIndex - 1
        match secondaries rd (e 1).toNat 0 v c fun i =>
            if i < 32 then e i else 0 with
        | (false, v, c, _) => (.error, v, c)
        | (true, v, c, set) =>
          match setInfo set (e 1).toNat index with
          | some info => (.file info, v, c)
          | none => dirNextFileLoop rd fuel v c

/-- The entries a directory can have before its chain is too long. -/
def entryBound (v : Volume) : Nat :=
  (v.clusterCount + 1) * 2 ^ (v.cszShift - 9) * 16 + 1

/-- `dir_next_file`. -/
def dirNextFile (rd : Reader) (v : Volume) (c : DirCur) : NextFile × Volume × DirCur :=
  dirNextFileLoop rd (entryBound v) v c

/-! ### The Allocation Bitmap -/

/-- `bitmap_locate`: the sector, the byte in it and the bit. -/
def bitmapLocate (v : Volume) (cluster : Nat) : Option (Nat × Nat × Nat) :=
  let idx := (cluster + word32 - 2) % word32
  let byteindex := idx / 8
  (clusterLba512 v v.bitmapCluster).map fun base =>
    ((base + byteindex / 512) % word32, byteindex % 512, idx % 8)

/-- The test `alloc_cluster` makes of the bit of a cluster. -/
def bitmapBit (rd : Reader) (v : Volume) (cluster : Nat) : Option Bool :=
  (bitmapLocate v cluster).bind fun (lba, byteOff, bit) =>
    (rd lba).map fun sec => ((sec byteOff).toNat).testBit bit

/-! ### The mount -/

/-- The scan of the root for the Allocation Bitmap and the Up-case Table, with a
bound on its rounds. -/
def scanRoot (rd : Reader) : Nat → Volume → DirCur → Option Volume
  | 0, _, _ => none
  | fuel + 1, v, c =>
    match dirCurNext rd v c with
    | (.error, _, _) => none
    | (.finished, v, _) => some v
    | (.entry e, v, c) =>
      if e 0 = 0 then some v
      else if e 0 = 0x81 then
        if (e 1).toNat.testBit 0 = false then
          scanRoot rd fuel { v with
            bitmapCluster := getLe 4 20 e
            bitmapBytes := getLe 8 24 e } c
        else scanRoot rd fuel v c
      else if e 0 = 0x82 then
        scanRoot rd fuel { v with
          upcaseCluster := getLe 4 20 e
          upcaseBytes := getLe 8 24 e } c
      else scanRoot rd fuel v c

/-- The checks of the boot sector, and the volume they let through. -/
def exfatParse (boot : Sector) : Option Volume :=
  let bpsShift := (boot 108).toNat
  let spcShift := (boot 109).toNat
  let rootCluster := getLe 4 96 boot
  if isExfat boot = false then none
  else if boot 0 ≠ 0xEB then none
  else if boot 510 ≠ 0x55 ∨ boot 511 ≠ 0xAA then none
  else if bpsShift < 9 ∨ bpsShift > 12 then none
  else if bpsShift + spcShift > 25 then none
  else if rootCluster < 2 then none
  else
    some {
      bpsShift := bpsShift
      spcShift := spcShift
      cszShift := bpsShift + spcShift
      s512Shift := bpsShift - 9
      fatOffset := getLe 4 80 boot
      fatLength := getLe 4 84 boot
      clusterHeap := getLe 4 88 boot
      clusterCount := getLe 4 92 boot
      rootCluster := rootCluster
      numFats := (boot 110).toNat
      bitmapCluster := 0
      bitmapBytes := 0
      upcaseCluster := 0
      upcaseBytes := 0
      nextFree := 0
      fatCache := none }

/-- `exfat_mount`, where no volume is mounted yet. -/
def exfatMount (rd : Reader) : Option Volume :=
  (rd 0).bind fun boot =>
    (exfatParse boot).bind fun v =>
      scanRoot rd (entryBound v) v (dirCurInit v.rootCluster false false 0)

end MainDob.Fs.Exfat
