/-
Purpose: The allocation table of `boot/DobFileSystem/main.c`: the window of FAT
  sectors the server caches, the write-back of its dirty range to both copies,
  and the allocation and release of cluster chains on top of it.
Trusted boundary: block reads succeed; a block write succeeds or changes
  nothing, as `outcome` decides; the cluster cache is transparent, because it
  is written through; a cluster is used through its bytes or through its
  directory slots, and what it holds as the one says nothing about the other.
Main exports: Region, Slot, Volume
-/
import Mathlib.Algebra.Ring.Nat
import Mathlib.Logic.Function.Basic

namespace MainDob.Fs

open Function (update)

def fatCacheSectors : Nat := 128

/-- Entries in a FAT sector. -/
def entriesPerSector : Nat := 128

/-- Entries in a window. -/
def windowEntries : Nat := fatCacheSectors * entriesPerSector

def fat32Free : Nat := 0

def fat32EocMin : Nat := 0x0FFFFFF8

def fat32Eoc : Nat := 0x0FFFFFFF

def fat32Bad : Nat := 0x0FFFFFF7

/-- Values of the 28 bits of an entry that count. -/
def fatMask : Nat := 2 ^ 28

/-- The parts of a volume a block write can go to. -/
inductive Region where
  | fat
  | data
  | dir
deriving DecidableEq, Repr

/-- A record of a directory: its first byte, the characters of a short or long
name, the attributes, the first cluster and the size. -/
structure Slot where
  mark : Nat
  name : List Char
  attr : Nat
  cluster : Nat
  size : Nat
deriving DecidableEq, Repr

/-- A record of zeros. -/
def Slot.zero : Slot := ⟨0, [], 0, 0, 0⟩

/-- The geometry, the disk and the globals of the server that go with it.
`outcome` is the verdict on the n-th block write to a region, `writes` how many
there were. -/
structure Volume where
  sectorsPerCluster : Nat
  fatSizeSectors : Nat
  totalClusters : Nat
  numFats : Nat
  rootCluster : Nat
  fat : Nat → Nat
  fatCopy : Nat → Nat
  fatCacheStart : Option Nat
  fatCache : Nat → Nat
  fatCacheDirty : Bool
  fatDirtyLo : Nat
  fatDirtyHi : Nat
  nextFreeHint : Nat
  data : Nat → Nat → UInt8
  slots : Nat → List Slot
  outcome : Region → Nat → Bool
  writes : Region → Nat

namespace Volume

def bytesPerCluster (v : Volume) : Nat := v.sectorsPerCluster * 512

end Volume

/-! ### Block writes -/

/-- A block write: its verdict, and the volume with the write counted. -/
def diskWrite (v : Volume) (region : Region) : Bool × Volume :=
  (v.outcome region (v.writes region),
    { v with writes := update v.writes region (v.writes region + 1) })

/-- `write_cluster` of file data. -/
def writeCluster (v : Volume) (cluster : Nat) (bytes : Nat → UInt8) : Bool × Volume :=
  if cluster < 2 then (false, v)
  else
    let (ok, v) := diskWrite v .data
    if ok then (true, { v with data := update v.data cluster bytes })
    else (false, v)

/-- `write_cluster` of directory records. -/
def writeSlots (v : Volume) (cluster : Nat) (slots : List Slot) : Bool × Volume :=
  if cluster < 2 then (false, v)
  else
    let (ok, v) := diskWrite v .dir
    if ok then (true, { v with slots := update v.slots cluster slots })
    else (false, v)

/-! ### The cached table -/

/-- A copy of the table with the sectors from `first` on overwritten by the
window in cache. -/
def storeSectors (v : Volume) (first count : Nat) (copy : Nat → Nat) : Nat → Nat :=
  fun cluster =>
    if first ≤ cluster / entriesPerSector ∧ cluster / entriesPerSector < first + count then
      v.fatCache (cluster % windowEntries)
    else copy cluster

/-- `fat_flush`: the dirty sectors go to both copies, and a failure is only
logged. -/
def fatFlush (v : Volume) : Volume :=
  match v.fatCacheStart with
  | none => v
  | some window =>
    if v.fatCacheDirty then
      let first := window * fatCacheSectors + v.fatDirtyLo
      let count := min (v.fatDirtyHi - v.fatDirtyLo + 1) (v.fatSizeSectors - first)
      let (ok, once) := diskWrite v .fat
      let once := { once with
        fat := if ok then storeSectors v first count v.fat else v.fat }
      let twice :=
        if 1 < v.numFats then
          let (ok, twice) := diskWrite once .fat
          { twice with
            fatCopy := if ok then storeSectors v first count v.fatCopy
              else v.fatCopy }
        else once
      { twice with fatCacheDirty := false }
    else v

/-- `fat_cache_load`: the window with the entry of the cluster is in cache
afterwards.  A partial last window leaves the rest of the cache as it was. -/
def fatCacheLoad (v : Volume) (cluster : Nat) : Bool × Volume :=
  let window := cluster / windowEntries
  if v.fatSizeSectors ≤ window * fatCacheSectors then (false, v)
  else if v.fatCacheStart = some window then (true, v)
  else
    let v := fatFlush v
    let count := min fatCacheSectors (v.fatSizeSectors - window * fatCacheSectors)
    (true, { v with
      fatCache := fun index =>
        if index < count * entriesPerSector then
          v.fat (window * windowEntries + index)
        else v.fatCache index
      fatCacheStart := some window })

def fatRead (v : Volume) (cluster : Nat) : Nat × Volume :=
  let (ok, v) := fatCacheLoad v cluster
  if ok then (v.fatCache (cluster % windowEntries) % fatMask, v)
  else (fat32Eoc, v)

/-- The dirty range grows by the sector of the entry. -/
def markDirty (v : Volume) (sector : Nat) : Volume :=
  if !v.fatCacheDirty then
    { v with fatDirtyLo := sector, fatDirtyHi := sector, fatCacheDirty := true }
  else if sector < v.fatDirtyLo then { v with fatDirtyLo := sector }
  else if v.fatDirtyHi < sector then { v with fatDirtyHi := sector }
  else v

/-- A new value for an entry of the window; its upper four bits stay. -/
def setCached (v : Volume) (index value : Nat) : Volume :=
  { v with
    fatCache := update v.fatCache index
      (v.fatCache index / fatMask * fatMask + value % fatMask) }

def fatWrite (v : Volume) (cluster value : Nat) : Bool × Volume :=
  let (ok, v) := fatCacheLoad v cluster
  if ok then
    let index := cluster % windowEntries
    (true, markDirty (setCached v index value) (index / entriesPerSector))
  else (false, v)

def fatIsEoc (value : Nat) : Bool := decide (fat32EocMin ≤ value)

/-! ### Chains -/

/-- The clusters in the order a search tries them: from the hint to the end,
then from the start to the hint. -/
def searchOrder (v : Volume) : List Nat :=
  let limit := v.totalClusters + 2
  let start :=
    if 2 ≤ v.nextFreeHint ∧ v.nextFreeHint < limit then v.nextFreeHint else 2
  List.range' start (limit - start) ++ List.range' 2 (start - 2)

/-- A free cluster becomes the end of the chain that ended in `last`. -/
def linkCluster (v : Volume) (last cluster : Nat) : Volume :=
  let v := (fatWrite v cluster fat32Eoc).2
  if 2 ≤ last then (fatWrite v last cluster).2 else v

/-- What a batch has allocated so far. -/
structure Batch where
  firstNew : Nat
  last : Nat
  allocated : Nat
deriving DecidableEq, Repr

/-- The two passes of `fat_alloc_batch`. -/
def allocLoop (count : Nat) : List Nat → Volume → Batch → Batch × Volume
  | [], v, batch => (batch, v)
  | cluster :: rest, v, batch =>
    if batch.allocated < count then
      let (entry, v) := fatRead v cluster
      if entry ≠ fat32Free then allocLoop count rest v batch
      else
        allocLoop count rest (linkCluster v batch.last cluster)
          ⟨if batch.firstNew = 0 then cluster else batch.firstNew, cluster, batch.allocated + 1⟩
    else (batch, v)

/-- `fat_alloc_batch` without zeroing, as every caller has it. -/
def fatAllocBatch (v : Volume) (prev count : Nat) : Batch × Volume :=
  let (batch, v) := allocLoop count (searchOrder v) v ⟨0, prev, 0⟩
  (batch, if 0 < batch.allocated then { v with nextFreeHint := batch.last + 1 }
    else v)

/-- The search of `fat_alloc_cluster`. -/
def findFree : List Nat → Volume → Option Nat × Volume
  | [], v => (none, v)
  | cluster :: rest, v =>
    let (entry, v) := fatRead v cluster
    if entry = fat32Free then (some cluster, v) else findFree rest v

/-- Directory records in a cluster. -/
def slotsPerCluster (v : Volume) : Nat := v.bytesPerCluster / 32

/-- `fat_alloc_cluster` with zeroing, as every caller has it: the outcome of
the zeroing write is not looked at. -/
def fatAllocCluster (v : Volume) (prev : Nat) : Nat × Volume :=
  match findFree (searchOrder v) v with
  | (none, v) => (0, v)
  | (some cluster, v) =>
    let v := linkCluster v prev cluster
    let (ok, v) := diskWrite v .dir
    let v := { v with
      slots := if ok then
          update v.slots cluster (List.replicate (slotsPerCluster v) Slot.zero)
        else v.slots
      nextFreeHint := cluster + 1 }
    (cluster, v)

end MainDob.Fs
