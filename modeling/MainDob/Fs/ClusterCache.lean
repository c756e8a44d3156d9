/-
Purpose: The cluster cache of `boot/DobFileSystem/main.c`: `read_cluster`, `write_cluster`
  and `cluster_cache_invalidate` over a disk whose transfers succeed.
Trusted boundary: a transfer moves the sectors from its physical LBA on
Main exports: Geometry, Cache, readCluster
-/
import Mathlib.Algebra.Ring.Nat
import MainDob.Fs.Mount

namespace MainDob.Fs.ClusterCache

open Function (update)

abbrev clusterCacheSlots : Nat := 3

scoped instance : NeZero clusterCacheSlots := ⟨by decide⟩

def clusterCacheBytes : Nat := 65536

/-- The fields of `fs` that say where a cluster is. -/
structure Geometry where
  partitionLba : UInt32
  dataStartLba : UInt32
  sectorsPerCluster : UInt8

def Geometry.sectors (fs : Geometry) : Nat := fs.sectorsPerCluster.toNat

@[irreducible]
def Geometry.bytes (fs : Geometry) : Nat := fs.sectors * sectorSize

/-- The bytes of one cluster. -/
abbrev Geometry.Cluster (fs : Geometry) : Type := Fin fs.bytes → UInt8

variable {fs : Geometry}

/-- A slot of `cluster_cache`, with the bytes of its `data` that a cluster takes. -/
structure ClusterSlot (fs : Geometry) where
  cluster : UInt32
  lru : UInt32
  data : fs.Cluster

/-- `cluster_cache`, `cluster_cache_clock`, and the disk. -/
structure State (fs : Geometry) where
  slots : Fin clusterCacheSlots → ClusterSlot fs
  clock : UInt32
  disk : Nat → Sector

/-- `cluster_to_lba`, and the partition that the transfers add. -/
def clusterToLba (fs : Geometry) (cluster : UInt32) : Nat :=
  (fs.dataStartLba + (cluster - 2) * fs.sectorsPerCluster.toUInt32 + fs.partitionLba).toNat

/-- `disk_read_sectors` of a cluster. -/
def diskRead (disk : Nat → Sector) (cluster : UInt32) : fs.Cluster := fun i =>
  disk (clusterToLba fs cluster + i / sectorSize) (i % sectorSize)

/-- `disk_write_sectors` of a cluster. -/
def diskWrite (disk : Nat → Sector) (cluster : UInt32) (buf : fs.Cluster) : Nat → Sector :=
  fun sector offset =>
    let i := (sector - clusterToLba fs cluster) * sectorSize + offset
    if h : clusterToLba fs cluster ≤ sector ∧ offset < sectorSize ∧ i < fs.bytes then
      buf ⟨i, h.2.2⟩
    else disk sector offset

/-- The slot of a cluster: the loops end at the first one. -/
def slotOf (slots : Fin clusterCacheSlots → ClusterSlot fs) (cluster : UInt32) :
    Option (Fin clusterCacheSlots) :=
  (List.finRange clusterCacheSlots).find? fun i => (slots i).cluster = cluster

/-- `cluster_cache_reset`. -/
def clusterCacheReset (s : State fs) : State fs :=
  { s with slots := fun i => { s.slots i with cluster := 0, lru := 0 }, clock := 0 }

/-- `cluster_cache_invalidate`. -/
def clusterCacheInvalidate (s : State fs) (cluster : UInt32) : State fs :=
  match slotOf s.slots cluster with
  | some i => { s with slots := update s.slots i { s.slots i with cluster := 0 } }
  | none => s

/-- The loop for `victim`: the first empty slot, or the one that was used least recently. -/
def victim (slots : Fin clusterCacheSlots → ClusterSlot fs) :
    List (Fin clusterCacheSlots) → Fin clusterCacheSlots → Fin clusterCacheSlots
  | [], best => best
  | i :: rest, best =>
    if (slots i).cluster = 0 then i
    else victim slots rest (if (slots i).lru < (slots best).lru then i else best)

/-- `read_cluster`. -/
def readCluster (s : State fs) (cluster : UInt32) : Option fs.Cluster × State fs :=
  if cluster < 2 then (none, s)
  else
    match slotOf s.slots cluster with
    | some i =>
      let slot := { s.slots i with lru := s.clock + 1 }
      (some (s.slots i).data, ⟨update s.slots i slot, s.clock + 1, s.disk⟩)
    | none =>
      let buf := diskRead s.disk cluster
      if fs.bytes ≤ clusterCacheBytes then
        let i := victim s.slots (List.finRange clusterCacheSlots) 0
        let slot := ⟨cluster, s.clock + 1, buf⟩
        (some buf, ⟨update s.slots i slot, s.clock + 1, s.disk⟩)
      else (some buf, s)

/-- `write_cluster`. -/
def writeCluster (s : State fs) (cluster : UInt32) (buf : fs.Cluster) : Bool × State fs :=
  if cluster < 2 then (false, s)
  else
    let disk := diskWrite s.disk cluster buf
    match slotOf s.slots cluster with
    | some i =>
      let slot :=
        if fs.bytes ≤ clusterCacheBytes then ⟨cluster, s.clock + 1, buf⟩
        else { s.slots i with cluster := 0, lru := s.clock + 1 }
      (true, ⟨update s.slots i slot, s.clock + 1, disk⟩)
    | none => (true, { s with disk })

/-- The zero fill of a new cluster: its sectors are written and the cached copy is dropped. -/
def writeDirect (s : State fs) (cluster : UInt32) (buf : fs.Cluster) : State fs :=
  clusterCacheInvalidate { s with disk := diskWrite s.disk cluster buf } cluster

end MainDob.Fs.ClusterCache
