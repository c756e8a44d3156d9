/-
Purpose: The FORMAT request of `boot/DobFileSystem/main.c` on the sectors of a
  disk: `fat32_format`, the mount after it, and what of the server outlives both,
  its caches and the files that are open.
Trusted boundary: a transfer inside the disk succeeds and one that ends past it
  fails and changes nothing; live mode and exFAT volumes are left out.
Main exports: Server, handleFormat, handleClose
-/
import MainDob.Fs.Mount
import MainDob.Fs.Stream

namespace MainDob.Fs.Format

open Lib.Bytes

/-- A slot of `cluster_cache`; cluster 0 is an empty one. -/
structure ClusterSlot where
  cluster : Nat
  lru : Nat
  data : Nat → UInt8

def clusterCacheSlots : Nat := 3

def clusterCacheBytes : Nat := 65536

/-- An entry of `fd_table`.  Only a WRITE fills its buffer, and that takes a file
that was opened for it. -/
def OpenFile : Type := { f : Fat.Fd // f.bufDirty = true → f.flags.write = true }

def unusedFd : OpenFile := ⟨Fat.Fd.zero, fun dirty => nomatch dirty⟩

/-- The server and its disk.  `disk` is counted from the start of the partition,
and `room` is how many sectors the device has from there on.  `sent` counts the
writes the driver has been asked for, and `identify` is what it answers as the
number of its sectors. -/
structure Server where
  disk : Nat → Sector
  room : Nat
  sent : Nat
  identify : Option UInt32
  fs : Geometry
  mounted : Bool
  fatCache : Nat → UInt8
  fatCacheStart : Option Nat
  fatCacheDirty : Bool
  fatDirtyLo : Nat
  fatDirtyHi : Nat
  clusterCache : List ClusterSlot
  clusterCacheClock : Nat
  nextFreeHint : Nat
  fds : Nat → OpenFile

/-! ### Sectors -/

/-- `disk_read_sectors`: the bytes of `count` sectors. -/
def diskReadSectors (s : Server) (lba count : Nat) : Option (Nat → UInt8) :=
  if lba + count ≤ s.room then
    some fun i => s.disk (lba + i / sectorSize) (i % sectorSize)
  else none

/-- `disk_write_sectors`. -/
def diskWriteSectors (s : Server) (lba count : Nat) (buf : Nat → UInt8) : Bool × Server :=
  if lba + count ≤ s.room then
    (true, { s with
      sent := s.sent + 1
      disk := fun sector i =>
        if lba ≤ sector ∧ sector < lba + count then
          buf ((sector - lba) * sectorSize + i)
        else s.disk sector i })
  else (false, { s with sent := s.sent + 1 })

/-- A write whose verdict nobody looks at. -/
def put (s : Server) (lba : Nat) (sector : Sector) : Server :=
  (diskWriteSectors s lba 1 sector).2

/-! ### The FAT window -/

/-- `fat_flush`.  The sums are those of a `uint32_t`. -/
def fatFlush (s : Server) : Server :=
  match s.fatCacheStart with
  | none => s
  | some start =>
    if s.fatCacheDirty then
      let lba := start + s.fatDirtyLo
      let n := s.fatDirtyHi - s.fatDirtyLo + 1
      let fatEnd := s.fs.fatStartLba + s.fs.fatSizeSectors
      let n := if lba + n > fatEnd then (fatEnd + word32 - lba) % word32 else n
      let buf := fun i => s.fatCache (s.fatDirtyLo * sectorSize + i)
      let s := (diskWriteSectors s lba n buf).2
      let s :=
        if s.fs.numFats > 1 then
          (diskWriteSectors s (lba + s.fs.fatSizeSectors) n buf).2
        else s
      { s with fatCacheDirty := false }
    else s

/-- `fat_cache_load`. -/
def fatCacheLoad (s : Server) (cluster : Nat) : Bool × Server :=
  let cacheBase := cluster / 128 / fatCacheSectors * fatCacheSectors
  let cacheLba := s.fs.fatStartLba + cacheBase
  let fatEnd := s.fs.fatStartLba + s.fs.fatSizeSectors
  if fatEnd ≤ cacheLba then (false, s)
  else if s.fatCacheStart = some cacheLba then (true, s)
  else
    let s := fatFlush s
    let n := if cacheLba + fatCacheSectors > fatEnd then fatEnd - cacheLba
      else fatCacheSectors
    match diskReadSectors s cacheLba n with
    | none => (false, s)
    | some bytes =>
      (true, { s with
        fatCache := fun i => if i < n * sectorSize then bytes i
          else s.fatCache i
        fatCacheStart := some cacheLba })

/-- The place of an entry in the window. -/
def indexInCache (cluster : Nat) : Nat :=
  cluster - cluster / 128 / fatCacheSectors * fatCacheSectors * 128

/-- `fat_read`. -/
def fatRead (s : Server) (cluster : Nat) : Nat × Server :=
  let (ok, s) := fatCacheLoad s cluster
  if ok then (getLe 4 (4 * indexInCache cluster) s.fatCache % fatMask, s)
  else (fat32Eoc, s)

/-- `fat_write`. -/
def fatWrite (s : Server) (cluster value : Nat) : Bool × Server :=
  let (ok, s) := fatCacheLoad s cluster
  if ok then
    let index := indexInCache cluster
    let old := getLe 4 (4 * index) s.fatCache
    let s := { s with
      fatCache := putBytes (4 * index)
        (leBytes 4 (old / fatMask * fatMask + value % fatMask)) s.fatCache }
    let dsec := index / 128
    let s :=
      if !s.fatCacheDirty then { s with fatDirtyLo := dsec, fatDirtyHi := dsec }
      else if dsec < s.fatDirtyLo then { s with fatDirtyLo := dsec }
      else if dsec > s.fatDirtyHi then { s with fatDirtyHi := dsec }
      else s
    (true, { s with fatCacheDirty := true })
  else (false, s)

/-! ### Clusters -/

/-- `cluster_cache_reset`. -/
def clusterCacheReset (s : Server) : Server :=
  { s with
    clusterCache := s.clusterCache.map fun slot =>
      { slot with cluster := 0, lru := 0 }
    clusterCacheClock := 0 }

/-- `cluster_to_lba`, for a cluster from 2 on. -/
def clusterToLba (s : Server) (cluster : Nat) : Nat :=
  (s.fs.dataStartLba + (cluster - 2) * s.fs.sectorsPerCluster) % word32

/-- The search for a slot: the first empty one, else the least recently used of
those looked at. -/
def victim : List ClusterSlot → Nat → Nat → Nat → Nat
  | [], _, best, _ => best
  | slot :: rest, i, best, lru =>
    if slot.cluster = 0 then i
    else if slot.lru < lru then victim rest (i + 1) i slot.lru
    else victim rest (i + 1) best lru

/-- `read_cluster`. -/
def readCluster (s : Server) (cluster : Nat) : Option (Nat → UInt8) × Server :=
  if cluster < 2 then (none, s)
  else
    let clock := s.clusterCacheClock + 1
    match s.clusterCache.findIdx? (·.cluster = cluster) with
    | some i =>
      ((s.clusterCache[i]?).map (·.data), { s with
        clusterCache := s.clusterCache.modify i fun slot =>
          { slot with lru := clock }
        clusterCacheClock := clock })
    | none =>
      match diskReadSectors s (clusterToLba s cluster)
          s.fs.sectorsPerCluster with
      | none => (none, s)
      | some bytes =>
        if s.fs.sectorsPerCluster * sectorSize ≤ clusterCacheBytes then
          let first := (s.clusterCache[0]?).map (·.lru)
          (some bytes, { s with
            clusterCache := s.clusterCache.modify
              (victim s.clusterCache 0 0 (first.getD 0))
              fun _ => ⟨cluster, clock, bytes⟩
            clusterCacheClock := clock })
        else (some bytes, s)

/-- `write_cluster`. -/
def writeCluster (s : Server) (cluster : Nat) (buf : Nat → UInt8) : Bool × Server :=
  if cluster < 2 then (false, s)
  else
    match diskWriteSectors s (clusterToLba s cluster) s.fs.sectorsPerCluster
        buf with
    | (false, s) => (false, s)
    | (true, s) =>
      match s.clusterCache.findIdx? (·.cluster = cluster) with
      | none => (true, s)
      | some i =>
        let clock := s.clusterCacheClock + 1
        (true, { s with
          clusterCache := s.clusterCache.modify i fun slot =>
            if s.fs.sectorsPerCluster * sectorSize ≤ clusterCacheBytes then
              { slot with lru := clock, data := buf }
            else { slot with lru := clock, cluster := 0 }
          clusterCacheClock := clock })

/-- `dir_update_entry`: the size and the first cluster of an entry. -/
def dirUpdateEntry (s : Server) (cluster index size first : Nat) : Bool × Server :=
  match readCluster s cluster with
  | (none, s) => (false, s)
  | (some buf, s) =>
    let buf := putBytes (32 * index + 28) (leBytes 4 size) buf
    let buf :=
      if first ≠ 0xFFFFFFFF then
        buf |> putBytes (32 * index + 20) (leBytes 2 (first / 2 ^ 16))
          |> putBytes (32 * index + 26) (leBytes 2 first)
      else buf
    writeCluster s cluster buf

/-- The loop of `fat_free_chain`. -/
def freeLoop : Nat → Server → Nat → Server
  | 0, s, _ => s
  | fuel + 1, s, cluster =>
    if 2 ≤ cluster ∧ ¬ fatIsEoc cluster ∧ cluster ≠ fat32Bad then
      let (next, s) := fatRead s cluster
      freeLoop fuel (fatWrite s cluster fat32Free).2 next
    else s

/-- `fat_free_chain`.  Every step but the last clears an entry of the table, so
there are no more steps than entries. -/
def fatFreeChain (s : Server) (start : Nat) : Server :=
  freeLoop (s.fs.fatSizeSectors * entriesPerSector + 2) s start

/-! ### Open files -/

/-- The walk of `fd_seek_cursor`. -/
def walkChain : Nat → Server → Nat → Option Nat × Server
  | 0, s, cluster => (some cluster, s)
  | steps + 1, s, cluster =>
    let (next, s) := fatRead s cluster
    if next < 2 ∨ fatIsEoc next then (none, s) else walkChain steps s next

/-- `fd_seek_cursor`. -/
def fdSeekCursor (s : Server) (f : Fat.Fd) (target : Nat) : Bool × Server × Fat.Fd :=
  if f.firstCluster < 2 then (false, s, f)
  else if 2 ≤ f.curCluster ∧ f.curClusterIdx = target then (true, s, f)
  else if 2 ≤ f.curCluster ∧ f.curClusterIdx + 1 = target then
    let (next, s) := fatRead s f.curCluster
    if next < 2 ∨ fatIsEoc next then (false, s, f)
    else (true, s, Fat.moveCursor f next target)
  else
    let start := Fat.seekStart f target
    match walkChain (target - start.2) s start.1 with
    | (none, s) => (false, s, f)
    | (some cluster, s) => (true, s, Fat.moveCursor f cluster target)

/-- The attempts of `fd_flush_write` to store a cluster. -/
def storeRetries : Nat → Server → Nat → (Nat → UInt8) → Bool × Server
  | 0, s, _, _ => (false, s)
  | tries + 1, s, cluster, buf =>
    match writeCluster s cluster buf with
    | (true, s) => (true, s)
    | (false, s) => storeRetries tries s cluster buf

/-- What a flush stores: the buffer, merged into the cluster where it does not
fill it. -/
def flushImage (s : Server) (f : Fat.Fd) : (Nat → UInt8) × Server :=
  if f.bufPos < s.fs.sectorsPerCluster * sectorSize then
    let (read, s) := readCluster s f.curCluster
    (fun i => if i < f.bufPos then f.buf i else read.getD (fun _ => 0) i, s)
  else (f.buf, s)

/-- `fd_flush_write`. -/
def fdFlushWrite (s : Server) (f : Fat.Fd) : Bool × Server × Fat.Fd :=
  if !f.bufDirty || f.bufPos == 0 then (true, s, f)
  else
    match fdSeekCursor s f
        (Fat.sub32 f.offset f.bufPos / (s.fs.sectorsPerCluster * sectorSize)) with
    | (false, s, f) => (false, s, f)
    | (true, s, f) =>
      let (image, s) := flushImage s f
      match storeRetries Fat.fdFlushRetries s f.curCluster image with
      | (false, s) => (false, s, f)
      | (true, s) => (true, s, { f with
          bufDirty := false
          bufPos := 0
          bufValid := 0
          bufStartClusterIdx := 0 })

/-- The checks of `handle_write`, for the owner of the file. -/
def writeCheck (s : Server) (fd : Nat) : Option Fat.Status :=
  if Fat.maxFds ≤ fd ∨ (s.fds fd).1.used = false then some .invalid
  else if (s.fds fd).1.flags.write = false then some .denied
  else if s.mounted = false then some .internal
  else none

/-- The walk to the last cluster a file needs. -/
def trimWalk : Nat → Server → Nat → Nat × Server
  | 0, s, cluster => (cluster, s)
  | steps + 1, s, cluster =>
    let (next, s) := fatRead s cluster
    if next < 2 ∨ fatIsEoc next then (cluster, s) else trimWalk steps s next

/-- CLOSE gives back the clusters a file was allocated ahead. -/
def closeTrim (s : Server) (f : Fat.Fd) : Server :=
  let bpc := s.fs.sectorsPerCluster * sectorSize
  let needed := max 1 ((f.fileSize % word32 + bpc - 1) % word32 / bpc)
  if needed < f.chainLen then
    let (last, s) := trimWalk (needed - 1) s f.firstCluster
    let (tail, s) := fatRead s last
    if 2 ≤ tail ∧ ¬ fatIsEoc tail then
      fatFreeChain (fatWrite s last fat32Eoc).2 tail
    else s
  else s

/-- CLOSE brings the entry of the file up to date, and gives back the clusters
of a file that was opened to be rewritten.  The verdict is whether the FAT is to
be flushed. -/
def closeEntry (s : Server) (f : Fat.Fd) (flushed wrote : Bool) : Bool × Server :=
  if 2 ≤ f.truncOldChain then
    if flushed then
      match dirUpdateEntry s f.dirCluster f.dirEntryIndex f.fileSize
          f.firstCluster with
      | (true, s) => (true, fatFreeChain s f.truncOldChain)
      | (false, s) => (wrote, s)
    else (wrote, s)
  else if f.metaDirty then
    (true, (dirUpdateEntry s f.dirCluster f.dirEntryIndex f.fileSize f.firstCluster).2)
  else (wrote, s)

/-- A slot of the table is given back, and with it the buffer. -/
def release (s : Server) (fd : Nat) (f : Fat.Fd) : Server :=
  let closed : OpenFile :=
    ⟨{ f with used := false, bufPos := 0, bufValid := 0, bufDirty := false },
      fun dirty => nomatch dirty⟩
  { s with fds := Function.update s.fds fd closed }

/-- `handle_close`, for the owner of the file. -/
def handleClose (s : Server) (fd : Nat) : Server :=
  let f := (s.fds fd).1
  if Fat.maxFds ≤ fd ∨ f.used = false then s
  else
    let wrote := f.bufDirty
    let (flushed, s, f) :=
      if wrote then fdFlushWrite s f else (true, s, f)
    let s :=
      if flushed && wrote && 2 ≤ f.firstCluster && !f.isDir then closeTrim s f
      else s
    let (wrote, s) := closeEntry s f flushed wrote
    release (if wrote then fatFlush s else s) fd (if 2 ≤ f.truncOldChain then
        { f with metaDirty := false, truncOldChain := 0 }
      else f)

/-- A step of `fd_reclaim_orphans` at a file whose owner has died, and the flush
after it. -/
def fdReclaim (s : Server) (fd : Nat) : Server :=
  let f := (s.fds fd).1
  if Fat.maxFds ≤ fd ∨ f.used = false then s
  else
    let (_, s, f) := if f.bufDirty then fdFlushWrite s f else (true, s, f)
    let s :=
      if f.metaDirty && f.dirCluster != 0 then
        (dirUpdateEntry s f.dirCluster f.dirEntryIndex f.fileSize f.firstCluster).2
      else s
    fatFlush (release s fd f)

/-! ### FORMAT -/

/-- Sectors of a cluster on a disk of `total` sectors. -/
def formatSpc (total : Nat) : Nat := if total > 524288 then 16 else 8

/-- The reserved sectors. -/
def formatReserved : Nat := 32

/-- Sectors of one FAT. -/
def formatFatSectors (total : Nat) : Nat :=
  let dataSectorsEst := (total + word32 - formatReserved) % word32
  let clustersEst := dataSectorsEst / formatSpc total
  let fatEntries := (clustersEst + 2) % word32
  let fatBytes := fatEntries * 4 % word32
  (fatBytes + sectorSize - 1) % word32 / sectorSize

/-- The first sector of the clusters. -/
def formatDataStart (total : Nat) : Nat :=
  (formatReserved + formatFatSectors total * 2) % word32

/-- The number of clusters. -/
def formatTotalClusters (total : Nat) : Nat :=
  (total + word32 - formatDataStart total) % word32 / formatSpc total

/-- The boot sector. -/
def formatBoot (total : Nat) : Sector :=
  (zeroSector : Sector)
    |> putBytes 0 [0xEB, 0x58, 0x90]
    |> putBytes 3 [0x4D, 0x53, 0x44, 0x4F, 0x53, 0x35, 0x2E, 0x30]
    |> putBytes 11 (leBytes 2 sectorSize)
    |> putBytes 13 (leBytes 1 (formatSpc total))
    |> putBytes 14 (leBytes 2 formatReserved)
    |> putBytes 16 (leBytes 1 2)
    |> putBytes 21 [0xF8]
    |> putBytes 24 [63, 0, 255, 0]
    |> putBytes 32 (leBytes 4 total)
    |> putBytes 36 (leBytes 4 (formatFatSectors total))
    |> putBytes 44 (leBytes 4 2)
    |> putBytes 48 [1, 0, 6, 0]
    |> putBytes 66 [0x29, 0x12, 0x34, 0x56, 0x78]
    |> putBytes 71 [0x4D, 0x41, 0x49, 0x4E, 0x44, 0x4F, 0x42, 0x20, 0x20, 0x20,
        0x20]
    |> putBytes 82 [0x46, 0x41, 0x54, 0x33, 0x32, 0x20, 0x20, 0x20]
    |> putBytes 510 [0x55, 0xAA]

/-- The FSInfo sector. -/
def formatFsinfo (total : Nat) : Sector :=
  (zeroSector : Sector)
    |> putBytes 0 [0x52, 0x52, 0x61, 0x41]
    |> putBytes 484 [0x72, 0x72, 0x41, 0x61]
    |> putBytes 488 (leBytes 4 ((formatTotalClusters total + word32 - 1) % word32))
    |> putBytes 492 [3, 0, 0, 0]
    |> putBytes 510 [0x55, 0xAA]

/-- The first sector of a FAT: the media mark, the end mark and the end of the
root directory. -/
def formatFatFirst : Sector :=
  (zeroSector : Sector)
    |> putBytes 0 (leBytes 4 fat32EocMin)
    |> putBytes 4 (leBytes 4 fat32Eoc)
    |> putBytes 8 (leBytes 4 fat32Eoc)

/-- `count` sectors of zeros from `lba` on, each a write of its own. -/
def zeroSectors : Nat → Server → Nat → Server
  | 0, s, _ => s
  | count + 1, s, lba => zeroSectors count (put s lba zeroSector) (lba + 1)

/-- `fat32_format`. -/
def fat32Format (s : Server) : Bool × Server :=
  match s.identify with
  | none => (false, s)
  | some sectors =>
    let total := sectors.toNat
    if total = 0 then (false, s)
    else
      let fatSectors := formatFatSectors total
      let (ok, s) := diskWriteSectors s 0 1 (formatBoot total)
      if ok then
        let s := put s 6 (formatBoot total)
        let s := put s 1 (formatFsinfo total)
        let s := put s 7 (formatFsinfo total)
        let s := zeroSectors (min fatSectors 256) s formatReserved
        let s := zeroSectors (min fatSectors 256) s (formatReserved + fatSectors)
        let s := put s formatReserved formatFatFirst
        let s := put s (formatReserved + fatSectors) formatFatFirst
        (true, zeroSectors (formatSpc total) s (formatDataStart total))
      else (false, s)

/-- `fat32_mount`, on a volume that is not exFAT.  It drops the cached clusters,
and nothing else of what the server has in memory. -/
def fat32Mount (s : Server) : Bool × Server :=
  match diskReadSectors s 0 1 with
  | none => (false, s)
  | some boot =>
    if isExfat boot then (false, s)
    else
      match fat32Parse boot with
      | none => (false, s)
      | some geometry =>
        (true, clusterCacheReset { s with fs := geometry, mounted := true })

/-- The FORMAT request for FAT32. -/
def handleFormat (s : Server) : Bool × Server :=
  let (ok, s) := fat32Format s
  if ok then fat32Mount s else (false, s)

end MainDob.Fs.Format
