/-
Purpose: The two formatters of libdob: for which partitions a call that returns true
  has made an empty volume, laid out properly and inside the partition.
Main exports: mkfs_makes, mkfs_makes_small, mkfs_makes_short
-/
import MainDob.Proofs.Fat32Ops
import MainDob.Proofs.ExfatMount

namespace MainDob.Proofs.Mkfs

open Fs Fs.Fat32Ops Fs.ExfatOps

/-- On a disk that contains the partition, a call of `fat32_mkfs` that returns true
has made a proper empty volume exactly where the rounding of the FAT leaves more
than a cluster, and one of `exfat_mkfs` exactly where a cluster is no larger than
the partition; in both the last request has to start below 2³². -/
theorem mkfs_makes (self mallocAt start sectors : UInt32) (d d' : Device)
    (opts : Option MkfsOptions) (contains : start.toNat + sectors.toNat ≤ d.totalSectors) :
    (fat32Mkfs self mallocAt d start sectors opts = (true, d') →
      (Fat32Ops.Made d d' start.toNat sectors.toNat ↔
        ∃ spc, chooseSpc sectors.toNat opts = some spc ∧
          Fat32Ops.Enough start.toNat sectors.toNat spc (chooseNumFats opts))) ∧
    (exfatMkfs d start sectors opts = (true, d') → (ExfatMount.Made d d' start.toNat sectors.toNat ↔
        ∃ shift, clusShift sectors.toNat (bpsShiftOf (logicalBytes opts)) opts = some shift ∧
          ExfatMount.Enough start.toNat sectors.toNat (logicalBytes opts)
            (2 ^ (shift - bpsShiftOf (logicalBytes opts))))) :=
  ⟨fun done => Fat32Ops.fat32_made contains done, fun done => ExfatMount.exfat_made contains done⟩

/-- A disk of 4096 sectors full of ones. -/
def disk4096 : Device := ⟨fun _ _ => 0xFF, 4096, []⟩

theorem ran {result : Bool × Device} (done : result.1 = true) : ∃ d', result = (true, d') :=
  ⟨result.2, Prod.ext done rfl⟩

/-- Partitions of half a megabyte and of a megabyte, at sector 63. -/
theorem mkfs_makes_small :
    (∃ d', fat32Mkfs 0 0 disk4096 63 1100 none = (true, d') ∧ Fat32Ops.Made disk4096 d' 63 1100) ∧
    ∃ d', exfatMkfs disk4096 63 2048 none = (true, d') ∧ ExfatMount.Made disk4096 d' 63 2048 := by
  obtain ⟨d', fat32⟩ := ran (show (fat32Mkfs 0 0 disk4096 63 1100 none).1 = true by decide +kernel)
  obtain ⟨e', exfat⟩ := ran (show (exfatMkfs disk4096 63 2048 none).1 = true by decide +kernel)
  have first := (mkfs_makes 0 0 63 1100 disk4096 d' none (by decide)).1 fat32
  have second := (mkfs_makes 0 0 63 2048 disk4096 e' none (by decide)).2 exfat
  refine ⟨⟨d', fat32, first.mpr ⟨1, by decide, ?_⟩⟩, e', exfat, second.mpr ⟨12, by decide, ?_⟩⟩
  · constructor <;> decide
  · constructor <;> decide

/-- A disk of 65536 sectors full of ones. -/
def disk65536 : Device := ⟨fun _ _ => 0xFF, 65536, []⟩

/-- A partition of 1072 sectors: the FAT has 1024 entries for 1024 clusters and the
two before them.  And one of a megabyte with clusters of two: the bitmap is
written behind its end. -/
theorem mkfs_makes_short : (∃ d', fat32Mkfs 0 0 disk65536 0 1072 none = (true, d') ∧
    ¬ Fat32Ops.Made disk65536 d' 0 1072) ∧ ∃ d', exfatMkfs disk65536 0 2048
    (some ⟨none, 0, 0, 2097152⟩) = (true, d') ∧ ¬ ExfatMount.Made disk65536 d' 0 2048 := by
  obtain ⟨d', fat32⟩ := ran (show (fat32Mkfs 0 0 disk65536 0 1072 none).1 = true by decide +kernel)
  obtain ⟨e', exfat⟩ := ran (show (exfatMkfs disk65536 0 2048
    (some ⟨none, 0, 0, 2097152⟩)).1 = true by decide +kernel)
  have first := Fat32Ops.fat32_made (by decide) fat32
  have second := ExfatMount.exfat_made (by decide) exfat
  refine ⟨⟨d', fat32, fun made => ?_⟩, e', exfat, fun made => ?_⟩
  · obtain ⟨spc, chosen, enough⟩ := first.mp made
    have one : chooseSpc 1072 none = some 1 := by decide
    cases one.symm.trans chosen
    exact enough.started (by decide)
  · obtain ⟨shift, chosen, enough⟩ := second.mp made
    have large : clusShift 2048 (bpsShiftOf (logicalBytes
      (some ⟨none, 0, 0, 2097152⟩))) (some ⟨none, 0, 0, 2097152⟩) = some 21 := by decide
    cases large.symm.trans chosen
    have fits := enough.fits
    revert fits
    decide

end MainDob.Proofs.Mkfs
