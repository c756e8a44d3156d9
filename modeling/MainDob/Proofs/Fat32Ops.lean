/-
Purpose: The FAT32 formatter of libdob: when the volume it has made is one whose
  FAT names every cluster, and what the mount finds there.
Main exports: Layout.Accepted, fat32Layout_accepted, covers_iff
-/
import MainDob.Fs.Fat32Ops
import MainDob.Proofs.Block
import MainDob.Proofs.Format

namespace MainDob.Proofs.Fat32Ops

open Lib.Bytes Block Fs.Fat32Ops
open Fs
open Fs.Format (Server fatRead fat32Mount)
open Format (Emptied getLe_zeroSector)
open List

/-! ## Sizes -/

/-- What the checks of `fat32_mkfs` promise of a layout. -/
structure Accepted (layout : Layout) (sectors : Nat) : Prop where
  large : 1024 ≤ sectors
  spc : layout.sectorsPerClus ∈ [1, 2, 4, 8, 16, 32, 64, 128]
  fats : layout.numFats = 1 ∨ layout.numFats = 2
  size : layout.fatSize = computeFatSize32 sectors 32 layout.numFats layout.sectorsPerClus
  room : 32 + layout.numFats * layout.fatSize + layout.sectorsPerClus ≤ sectors

theorem chooseNumFats_cases (opts : Option MkfsOptions) :
    chooseNumFats opts = 1 ∨ chooseNumFats opts = 2 := by
  unfold chooseNumFats
  dsimp only
  split <;> omega

theorem spc_of_land : ∀ spc < 129, 1 ≤ spc → spc &&& (spc - 1) = 0 →
    spc ∈ [1, 2, 4, 8, 16, 32, 64, 128] := by
  decide

theorem chooseSectorsPerCluster_mem (sectors : Nat) :
    chooseSectorsPerCluster sectors ∈ [1, 2, 4, 8, 16, 32, 64, 128] := by
  unfold chooseSectorsPerCluster
  dsimp only
  split_ifs <;> decide

theorem chooseSpc_mem {sectors spc : Nat} {opts : Option MkfsOptions}
    (chosen : chooseSpc sectors opts = some spc) : spc ∈ [1, 2, 4, 8, 16, 32, 64, 128] := by
  unfold chooseSpc at chosen
  dsimp only at chosen
  split at chosen
  · split at chosen
    · cases chosen
    next valid =>
      cases chosen
      simp only [not_or, not_not] at valid
      obtain ⟨low, high, power, _⟩ := valid
      exact spc_of_land _ (by omega) (by omega) power
  · cases chosen
    exact chooseSectorsPerCluster_mem sectors

theorem computeFatSize32_lt {sectors numFats spc : Nat} (some : 1 ≤ spc) :
    computeFatSize32 sectors 32 numFats spc < 2 ^ 25 := by
  have bound : ((sectors + word32 - 32) % word32 + (128 * spc + numFats) - 1) %
      word32 < word32 := Nat.mod_lt _ (by decide)
  refine Nat.div_lt_of_lt_mul (lt_of_lt_of_le bound ?_)
  calc word32 = 128 * 2 ^ 25 := rfl
    _ ≤ (128 * spc + numFats) * 2 ^ 25 := Nat.mul_le_mul_right _ (by omega)

theorem spc_bounds {spc : Nat} (member : spc ∈ [1, 2, 4, 8, 16, 32, 64, 128]) :
    1 ≤ spc ∧ spc ≤ 128 := by
  simp only [mem_cons, not_mem_nil, or_false] at member
  omega

theorem fat32Layout_accepted {sectors : Nat} {opts : Option MkfsOptions} {layout : Layout}
    (accepted : fat32Layout sectors opts = some layout) : Accepted layout sectors ∧
    chooseSpc sectors opts = some layout.sectorsPerClus ∧ layout.numFats = chooseNumFats opts := by
  unfold fat32Layout at accepted
  dsimp only at accepted
  split at accepted
  · cases accepted
  next large =>
    split at accepted
    · cases accepted
    split at accepted
    · cases accepted
    next spc chosen =>
      split at accepted
      · cases accepted
      next room =>
        cases accepted
        have member := chooseSpc_mem chosen
        have bounds := spc_bounds member
        have fats := chooseNumFats_cases opts
        have small := @computeFatSize32_lt sectors (chooseNumFats opts) spc bounds.1
        refine ⟨⟨by omega, member, fats, rfl, ?_⟩, chosen, rfl⟩
        have reserved : defaultReserved = 32 := rfl
        rw [reserved] at room ⊢
        unfold word32 at room
        dsimp only
        rcases fats with one | two
        · rw [one] at room small ⊢
          omega
        · rw [two] at room small ⊢
          omega

/-- The number of clusters of a layout. -/
def clusters (layout : Layout) (sectors : Nat) : Nat :=
  (sectors - 32 - layout.numFats * layout.fatSize) / layout.sectorsPerClus

/-- The entries that share a group of FAT and data: the divisor of the size. -/
def group (spc numFats : Nat) : Nat := 128 * spc + numFats

theorem div_up {rest divisor : Nat} (positive : 0 < divisor) (surplus : rest % divisor ≠ 0) :
    (rest + divisor - 1) / divisor = rest / divisor + 1 := by
  have split := Nat.div_add_mod rest divisor
  have below := Nat.mod_lt rest positive
  generalize rest / divisor = whole at *
  generalize rest % divisor = left at *
  have next : divisor * (whole + 1) = divisor * whole + divisor := Nat.mul_succ _ _
  have less : left - 1 < divisor := by omega
  rw [show rest + divisor - 1 = divisor * (whole + 1) + (left - 1) by omega,
    Nat.mul_add_div positive, Nat.div_eq_of_lt less, add_zero]

theorem rounded_covers {rest spc fats fatSize : Nat} (some : 1 ≤ spc) (one : 1 ≤ fats)
    (size : fatSize = (rest + group spc fats - 1) / group spc fats) (room : fats * fatSize ≤ rest) :
    (rest - fats * fatSize) / spc + 2 ≤ 128 * fatSize ↔
    rest % group spc fats ≠ 0 ∧ rest % group spc fats + spc < group spc fats := by
  have positive : 0 < group spc fats := by
    unfold group
    omega
  have split := Nat.div_add_mod rest (group spc fats)
  have below := Nat.mod_lt rest positive
  have entries : 128 * fatSize * spc + fats * fatSize = group spc fats * fatSize := by
    unfold group
    rw [add_mul, mul_right_comm]
  -- below a whole number of clusters less one
  have fewer : (rest - fats * fatSize) / spc + 2 ≤ 128 * fatSize ↔ 2 ≤ 128 * fatSize ∧
        rest + spc < 128 * fatSize * spc + fats * fatSize := by
    have scaled : (128 * fatSize - 1) * spc = 128 * fatSize * spc - spc := by
      rw [Nat.sub_mul, Nat.one_mul]
    have step := Nat.div_lt_iff_lt_mul (x := rest - fats * fatSize)
      (y := 128 * fatSize - 1) (show 0 < spc by omega)
    have small : 2 ≤ 128 * fatSize → spc ≤ 128 * fatSize * spc :=
      fun two => Nat.le_mul_of_pos_left _ (by omega)
    generalize (rest - fats * fatSize) / spc = count at *
    constructor
    · intro covered
      have two : 2 ≤ 128 * fatSize := by omega
      have inside := step.mp (by omega)
      have room' := small two
      exact ⟨two, by omega⟩
    · rintro ⟨two, inside⟩
      omega
  rw [fewer, entries]
  by_cases exact : rest % group spc fats = 0
  · have size' : fatSize = rest / group spc fats := by
      have less : group spc fats - 1 < group spc fats := by omega
      rw [size, show rest + group spc fats - 1 = group spc fats *
          (rest / group spc fats) + (group spc fats - 1) by omega,
        Nat.mul_add_div positive, Nat.div_eq_of_lt less, add_zero]
    rw [size']
    constructor
    · rintro ⟨_, inside⟩
      omega
    · rintro ⟨nonzero, _⟩
      exact absurd exact nonzero
  · rw [size, div_up positive exact]
    have next : group spc fats * (rest / group spc fats + 1) =
        group spc fats * (rest / group spc fats) + group spc fats :=
      Nat.mul_succ _ _
    generalize rest / group spc fats = whole at *
    generalize rest % group spc fats = surplus at *
    omega

theorem covers_iff {layout : Layout} {sectors : Nat} (small : sectors < word32)
    (accepted : Accepted layout sectors) : clusters layout sectors + 2 ≤ 128 * layout.fatSize ↔
      sectors - 32 + group layout.sectorsPerClus layout.numFats ≤ word32 ∧
      (sectors - 32) % group layout.sectorsPerClus layout.numFats ≠ 0 ∧
      (sectors - 32) % group layout.sectorsPerClus layout.numFats +
        layout.sectorsPerClus < group layout.sectorsPerClus layout.numFats := by
  obtain ⟨large, member, fats, size, room⟩ := accepted
  have bounds := spc_bounds member
  have size' : layout.fatSize = (sectors - 32 +
      group layout.sectorsPerClus layout.numFats - 1) % word32 /
        group layout.sectorsPerClus layout.numFats := by
    rw [size]
    unfold computeFatSize32
    rw [show sectors + word32 - 32 = sectors - 32 + word32 by omega,
      Nat.add_mod_right, Nat.mod_eq_of_lt (show sectors - 32 < word32 by omega)]
    rfl
  have narrow : group layout.sectorsPerClus layout.numFats ≤ 16386 := by
    unfold group
    omega
  unfold clusters
  by_cases wraps : sectors - 32 + group layout.sectorsPerClus layout.numFats ≤ word32
  · rw [Nat.mod_eq_of_lt (by unfold word32 at *; omega)] at size'
    rw [rounded_covers bounds.1 (by omega) size' (by omega)]
    exact (and_iff_right wraps).symm
  rw [show sectors - 32 + group layout.sectorsPerClus layout.numFats - 1 =
      sectors - 32 + group layout.sectorsPerClus layout.numFats - 1 - word32 + word32 by omega,
    Nat.add_mod_right, Nat.mod_eq_of_lt (by unfold word32 at *; omega),
    Nat.div_eq_of_lt (by unfold word32 at *; omega)] at size'
  rw [size']
  generalize (sectors - 32 - layout.numFats * 0) / layout.sectorsPerClus = count
  omega

/-! ## The boot sector, read back -/

@[simp] theorem length_fillVolumeLabel (label : Option (List UInt8)) :
    (fillVolumeLabel label).length = 11 := by
  unfold fillVolumeLabel
  rw [length_append, length_replicate, length_map, length_take]
  omega

section Bpb

variable {layout : Layout} {start sectors volumeId : UInt32} {label : Option (List UInt8)}

theorem fat32Bpb_fields (accepted : Accepted layout sectors.toNat) :
    getLe 2 11 (fat32Bpb layout start sectors volumeId label) = 512 ∧
    getLe 1 13 (fat32Bpb layout start sectors volumeId label) = layout.sectorsPerClus ∧
    getLe 2 14 (fat32Bpb layout start sectors volumeId label) = 32 ∧
    getLe 1 16 (fat32Bpb layout start sectors volumeId label) = layout.numFats ∧
    getLe 2 17 (fat32Bpb layout start sectors volumeId label) = 0 ∧
    getLe 2 19 (fat32Bpb layout start sectors volumeId label) = 0 ∧
    getLe 2 22 (fat32Bpb layout start sectors volumeId label) = 0 ∧
    getLe 4 32 (fat32Bpb layout start sectors volumeId label) = sectors.toNat ∧
    getLe 4 36 (fat32Bpb layout start sectors volumeId label) = layout.fatSize ∧
    getLe 4 44 (fat32Bpb layout start sectors volumeId label) = 2 := by
  have bounds := spc_bounds accepted.spc
  have spc : layout.sectorsPerClus % 256 ^ 1 = layout.sectorsPerClus := Nat.mod_eq_of_lt (by omega)
  have fats : layout.numFats % 256 ^ 1 = layout.numFats :=
    Nat.mod_eq_of_lt (by rcases accepted.fats with one | two <;> omega)
  have total : sectors.toNat % 256 ^ 4 = sectors.toNat := Nat.mod_eq_of_lt sectors.toNat_lt
  have size : layout.fatSize % 256 ^ 4 = layout.fatSize := by
    refine Nat.mod_eq_of_lt ?_
    rw [accepted.size]
    exact lt_trans (computeFatSize32_lt bounds.1) (by decide)
  unfold fat32Bpb
  simp (disch := simp) only [getLe_putBytes_apart, getLe_putBytes,
    getLe_zeroSector, spc, fats, total, size]
  decide

theorem isExfat_fat32Bpb : isExfat (fat32Bpb layout start sectors volumeId label) = false := by
  have third : fat32Bpb layout start sectors volumeId label 3 = 0x4D := by simp [fat32Bpb, putBytes]
  rw [isExfat, decide_eq_false_iff_not]
  intro equal
  have first := congrArg List.head? equal
  simp [third, range_succ_eq_map] at first

end Bpb

/-- The geometry of a volume `fat32_mkfs` has made. -/
def madeGeometry (layout : Layout) (sectors : Nat) : Geometry where
  sectorsPerCluster := layout.sectorsPerClus
  fatStartLba := 32
  fatSizeSectors := layout.fatSize
  numFats := layout.numFats
  rootCluster := 2
  partitionSectors := sectors
  dataStartLba := 32 + layout.numFats * layout.fatSize
  totalClusters := clusters layout sectors

theorem fat32Bpb_parse {layout : Layout} {start sectors volumeId : UInt32}
    {label : Option (List UInt8)} (accepted : Accepted layout sectors.toNat) :
    fat32Parse (fat32Bpb layout start sectors volumeId label) = if layout.fatSize = 0 then none
      else some (madeGeometry layout sectors.toNat) := by
  obtain ⟨bytes, spc, reserved, fats, entries, total16, fat16, total32, fatSize,
    root⟩ := @fat32Bpb_fields layout start sectors volumeId label accepted
  have bounds := spc_bounds accepted.spc
  have room := accepted.room
  have two := accepted.fats
  have valid : validSpc layout.sectorsPerClus = true := decide_eq_true accepted.spc
  unfold fat32Parse
  rw [bytes, spc, reserved, fats, entries, total16, fat16, total32, fatSize, root]
  rw [if_neg (by decide), if_neg (by decide), if_neg (by rw [valid]; decide),
    if_neg (by omega), if_neg (by decide)]
  by_cases wrapped : layout.fatSize = 0
  · rw [if_pos wrapped, if_pos wrapped]
  rw [if_neg wrapped, if_neg wrapped, if_neg (show ¬ sectors.toNat = 0 by omega),
    if_neg (by omega), if_neg (by omega), if_neg (by decide)]
  rfl

/-! ## The sectors -/

section Sectors

variable {layout : Layout} {start : Nat}

theorem fatWrites_straight {f : Nat}
    (straight : start + 32 + f * layout.fatSize + max 1 layout.fatSize ≤ word32)
    {w : Write} (member : w ∈ fatWrites layout start f) : start + 32 + f * layout.fatSize ≤ w.lba ∧
    w.lba + w.count ≤ start + 32 + f * layout.fatSize + max 1 layout.fatSize := by
  unfold fatWrites defaultReserved at member
  rw [Nat.mod_eq_of_lt (by omega)] at member
  rcases mem_cons.mp member with rfl | member
  · exact ⟨le_refl _, by dsimp only; omega⟩
  split at member
  · next more =>
      rw [Nat.mod_eq_of_lt (by omega)] at member
      have last := lastChunk_lt (show 0 < layout.fatSize - 1 by omega)
      obtain ⟨low, high, _⟩ := zeroRegion_straight (by omega) member
      omega
  · cases member

theorem overlay_fatWrites {f sector : Nat}
    (straight : start + 32 + f * layout.fatSize + layout.fatSize ≤ word32)
    (inside : sector < layout.fatSize) (disk : Nat → Sector) :
    ∀ i < sectorSize, overlay (fatWrites layout start f) disk
      (start + 32 + f * layout.fatSize + sector) i = if sector = 0 then fatFirst i else 0 := by
  intro i low
  unfold fatWrites defaultReserved
  rw [Nat.mod_eq_of_lt (by omega), overlay_cons]
  generalize start + 32 + f * layout.fatSize = base at *
  have first : sector = 0 → (⟨base, 1, fatFirst⟩ : Write).apply disk
      (base + sector) i = fatFirst i := by
    intro zero
    rw [apply_read (by dsimp only; omega) (by dsimp only; omega), zero]
    rw [Nat.add_zero, Nat.sub_self, Nat.zero_mul, Nat.zero_add]
  split
  · rw [Nat.mod_eq_of_lt (by omega)]
    have last := lastChunk_lt (show 0 < layout.fatSize - 1 by omega)
    rw [overlay_zeroRegion (by omega)]
    split
    · rw [if_neg (by omega)]
      rfl
    · rw [if_pos (by omega)]
      exact first (by omega)
  · rw [overlay_nil, if_pos (by omega)]
    exact first (by omega)

end Sectors

/-- Every request of the call has its LBA below 2³². -/
def Straight (layout : Layout) (start : Nat) : Prop :=
  start + 32 + layout.numFats * layout.fatSize + lastChunk layout.sectorsPerClus < word32

section Made

variable {layout : Layout} {start sectors volumeId : UInt32} {label : Option (List UInt8)}

theorem fat_room {f : Nat} (inside : f < layout.numFats) :
    f * layout.fatSize + layout.fatSize ≤ layout.numFats * layout.fatSize := by
  rw [← Nat.succ_mul]
  exact Nat.mul_le_mul_right _ inside

section

variable (straight : Straight layout start.toNat)
include straight

theorem mem_rest (some : 1 ≤ layout.sectorsPerClus)
    {w : Write} (member : w ∈ (List.range layout.numFats).flatMap (fatWrites layout start.toNat) ++
      zeroRegion ((start.toNat + defaultReserved + layout.numFats * layout.fatSize) % word32)
        layout.sectorsPerClus) : start.toNat + 32 ≤ w.lba ∧ w.lba + w.count ≤ start.toNat + 32 +
      layout.numFats * layout.fatSize + layout.sectorsPerClus := by
  unfold Straight at straight
  rcases mem_append.mp member with fats | root
  · obtain ⟨f, inside, member⟩ := mem_flatMap.mp fats
    have room := fat_room (mem_range.mp inside)
    obtain ⟨low, high⟩ := fatWrites_straight (by omega) member
    omega
  · unfold defaultReserved at root
    rw [Nat.mod_eq_of_lt (by omega)] at root
    obtain ⟨low, high, _⟩ := zeroRegion_straight straight root
    omega

theorem made_boot (some : 1 ≤ layout.sectorsPerClus) (disk : Nat → Sector) :
    ∀ i < sectorSize, overlay (fat32Writes layout start sectors volumeId label)
      disk start.toNat i = fat32Bpb layout start sectors volumeId label i := by
  intro i _
  have below : start.toNat + 32 < word32 := by
    unfold Straight at straight
    omega
  unfold fat32Writes
  rw [Nat.mod_eq_of_lt (show start.toNat + 6 < word32 by omega),
    Nat.mod_eq_of_lt (show start.toNat + 1 < word32 by omega), cons_append,
    ← nil_append (_ :: _), overlay_read (le_refl _) (by simp)]
  · simp
  intro w member
  rw [cons_append, cons_append, nil_append, mem_cons, mem_cons] at member
  rcases member with rfl | rfl | member
  · exact .inl (by dsimp only; omega)
  · exact .inl (by dsimp only; omega)
  · have low := (mem_rest straight some member).1
    exact .inl (show start.toNat < w.lba by omega)

theorem made_fat (fats : layout.numFats = 1 ∨ layout.numFats = 2) (disk : Nat → Sector)
    {sector : Nat} (inside : sector < layout.fatSize) :
    ∀ i < sectorSize, overlay (fat32Writes layout start sectors volumeId label)
      disk (start.toNat + 32 + sector) i = if sector = 0 then fatFirst i else 0 := by
  intro i low
  have room := @fat_room layout 0 (by omega)
  unfold Straight at straight
  unfold fat32Writes
  rw [overlay_append, overlay_append]
  -- the root, and the second FAT, are further on
  have root : ∀ w ∈ zeroRegion ((start.toNat + defaultReserved +
        layout.numFats * layout.fatSize) % word32) layout.sectorsPerClus,
      Write.Apart w (start.toNat + 32 + sector) := by
    intro w member
    unfold defaultReserved at member
    rw [Nat.mod_eq_of_lt (by omega)] at member
    have place := zeroRegion_straight straight member
    exact .inl (by omega)
  rw [overlay_apart root]
  generalize overlay _ disk = before
  have first := @overlay_fatWrites layout start.toNat 0 sector (by omega) inside before i low
  rw [zero_mul, add_zero] at first
  rcases fats with one | two
  · rw [one, range_one, flatMap_singleton]
    exact first
  rw [two, show List.range 2 = [0, 1] from rfl, flatMap_cons, flatMap_singleton, overlay_append]
  rw [two] at straight
  rw [overlay_apart, first]
  intro w member
  have place := fatWrites_straight (by omega) member
  exact .inl (by omega)

theorem made_root (disk : Nat → Sector) {sector : Nat} (inside : sector < layout.sectorsPerClus) :
    overlay (fat32Writes layout start sectors volumeId label) disk
      (start.toNat + (32 + layout.numFats * layout.fatSize + sector)) = zeroSector := by
  unfold Straight at straight
  unfold fat32Writes defaultReserved
  rw [Nat.mod_eq_of_lt (show start.toNat + 32 + layout.numFats * layout.fatSize < word32 by omega),
      ← append_assoc, overlay_append, overlay_zeroRegion straight, if_pos (by omega)]

end

end Made

/-! ## The mount -/

/-- The server that was started for a partition: nothing is cached yet. -/
def started (d : Device) (start : Nat) : Server where
  disk := fun sector => d.disk (start + sector)
  room := d.totalSectors - start
  sent := 0
  identify := none
  fs := ⟨0, 0, 0, 0, 0, 0, 0, 0⟩
  mounted := false
  fatCache := zeroSector
  fatCacheStart := none
  fatCacheDirty := false
  fatDirtyLo := 0
  fatDirtyHi := 0
  clusterCache := List.replicate Fs.Format.clusterCacheSlots ⟨0, 0, zeroSector⟩
  clusterCacheClock := 0
  nextFreeHint := 2
  fds := fun _ => Fs.Format.unusedFd

theorem fat32Mount_eq {s : Server} (room : 1 ≤ s.room) {boot : Sector}
    (same : ∀ i < sectorSize, s.disk 0 i = boot i) (other : isExfat boot = false) :
    fat32Mount s = match fat32Parse boot with
      | none => (false, s)
      | some geometry => (true, Format.remounted s s.disk geometry) := by
  have read : ∀ i < sectorSize, s.disk (0 + i / sectorSize) (i % sectorSize) = boot i := by
    intro i inside
    rw [Nat.div_eq_of_lt inside, Nat.mod_eq_of_lt inside]
    exact same i inside
  have sameName : isExfat (fun i => s.disk (0 + i / sectorSize)
      (i % sectorSize)) = isExfat boot := by
    unfold isExfat
    congr 2
    refine map_congr_left fun i member => ?_
    have small := mem_range.mp member
    exact read (3 + i) (by unfold sectorSize; omega)
  unfold fat32Mount Fs.Format.diskReadSectors
  rw [if_pos (by omega)]
  dsimp only
  rw [sameName, other, Format.fat32Parse_congr read]
  rfl

/-- The parts of the volume lie one after the other, inside the partition, and
the FAT has an entry for every cluster. -/
structure Laid (fs : Geometry) (sectors : Nat) : Prop where
  covers : fs.totalClusters + 2 ≤ 128 * fs.fatSizeSectors
  reserved : 6 < fs.fatStartLba
  fats : fs.fatStartLba + fs.numFats * fs.fatSizeSectors ≤ fs.dataStartLba
  fits : fs.dataStartLba + fs.totalClusters * fs.sectorsPerCluster ≤ sectors
  root : 2 ≤ fs.rootCluster ∧ fs.rootCluster < fs.totalClusters + 2

/-- A call of `fat32_mkfs` has done its work: it has written inside the partition
only, and the mount gets an empty volume that is laid out properly, with the
root as the only cluster in use. -/
structure Made (d d' : Device) (start sectors : Nat) : Prop where
  inside : Inside d d' start sectors
  mounts : ∃ s, fat32Mount (started d' start) = (true, s) ∧ Laid s.fs sectors ∧ Emptied s

/-- The partitions `fat32_mkfs` makes a volume of: the rounding of the size of
the FAT leaves more than a cluster, nothing wraps, and the last request, of the
root directory, starts below 2³². -/
structure Enough (start sectors spc numFats : Nat) : Prop where
  noWrap : sectors - 32 + group spc numFats ≤ word32
  started : (sectors - 32) % group spc numFats ≠ 0
  slack : (sectors - 32) % group spc numFats + spc < group spc numFats
  addressable : start + 32 +
    numFats * ((sectors - 32) / group spc numFats + 1) + lastChunk spc < word32

theorem fatSize_eq {layout : Layout} {sectors : Nat} (small : sectors < word32)
    (accepted : Accepted layout sectors)
    (noWrap : sectors - 32 + group layout.sectorsPerClus layout.numFats ≤ word32)
    (surplus : (sectors - 32) % group layout.sectorsPerClus layout.numFats ≠ 0) :
    layout.fatSize = (sectors - 32) / group layout.sectorsPerClus layout.numFats + 1 := by
  have large := accepted.large
  have bounds := spc_bounds accepted.spc
  have positive : 0 < group layout.sectorsPerClus layout.numFats := by
    unfold group
    omega
  rw [accepted.size]
  unfold computeFatSize32
  rw [show sectors + word32 - 32 = sectors - 32 + word32 by omega,
    Nat.add_mod_right, Nat.mod_eq_of_lt (show sectors - 32 < word32 by omega)]
  dsimp only
  rw [show 128 * layout.sectorsPerClus + layout.numFats =
    group layout.sectorsPerClus layout.numFats from rfl,
    Nat.mod_eq_of_lt (by omega), div_up positive surplus]

section Call

variable {layout : Layout} {start sectors volumeId : UInt32}
  {label : Option (List UInt8)} {d d' : Device}

section

variable (accepted : Accepted layout sectors.toNat)
include accepted

theorem straight_of_inside
    (done : writeAll (fat32Writes layout start sectors volumeId label) d = (true, d'))
    (inside : Inside d d' start.toNat sectors.toNat) : Straight layout start.toNat := by
  have room := accepted.room
  have bounds := spc_bounds accepted.spc
  have last := lastChunk_lt (show 0 < layout.sectorsPerClus by omega)
  have startSmall : start.toNat < word32 := start.toNat_lt
  have sectorsSmall : sectors.toNat < word32 := sectors.toNat_lt
  obtain ⟨w, member, lba⟩ := @zeroRegion_last ((start.toNat +
    defaultReserved + layout.numFats * layout.fatSize) % word32) _ bounds.1
    (Nat.mod_lt _ (by decide))
  have low := ((inside_iff done _ _).mp inside w (mem_append_right _ (mem_append_right _ member))).1
  rw [lba, Nat.mod_add_mod] at low
  unfold defaultReserved at low
  unfold Straight
  by_contra wraps
  rw [show start.toNat + 32 + layout.numFats * layout.fatSize + lastChunk
      layout.sectorsPerClus = start.toNat + 32 + layout.numFats *
        layout.fatSize + lastChunk layout.sectorsPerClus - word32 + word32 by
      omega, Nat.add_mod_right, Nat.mod_eq_of_lt (by omega)] at low
  omega

theorem mount_made (contains : start.toNat + sectors.toNat ≤ d.totalSectors)
    (straight : Straight layout start.toNat)
    (done : writeAll (fat32Writes layout start sectors volumeId label) d = (true, d')) :
    fat32Mount (started d' start.toNat) = if layout.fatSize = 0 then (false, started d' start.toNat)
      else (true, Format.remounted (started d' start.toNat)
        (started d' start.toNat).disk (madeGeometry layout sectors.toNat)) := by
  have large := accepted.large
  have after := writeAll_success done
  have room : 1 ≤ (started d' start.toNat).room := by
    rw [after]
    show 1 ≤ d.totalSectors - start.toNat
    omega
  have boot : ∀ i < sectorSize, (started d' start.toNat).disk 0 i =
      fat32Bpb layout start sectors volumeId label i := by
    rw [after]
    exact made_boot straight (spc_bounds accepted.spc).1 d.disk
  rw [fat32Mount_eq room boot isExfat_fat32Bpb, fat32Bpb_parse accepted]
  split
  · next none =>
      split at none
      · next zero => rw [if_pos zero]
      · cases none
  · next geometry parsed =>
      split at parsed
      · cases parsed
      next nonzero =>
        cases parsed
        rw [if_neg nonzero]

theorem inside_of_straight (straight : Straight layout start.toNat)
    (done : writeAll (fat32Writes layout start sectors volumeId label) d = (true, d')) :
    Inside d d' start.toNat sectors.toNat := by
  have room := accepted.room
  have below : start.toNat + 32 < word32 := by
    unfold Straight at straight
    omega
  rw [inside_iff done]
  intro w member
  unfold fat32Writes at member
  rw [Nat.mod_eq_of_lt (show start.toNat + 6 < word32 by omega),
    Nat.mod_eq_of_lt (show start.toNat + 1 < word32 by omega), cons_append,
    cons_append, cons_append, nil_append, mem_cons, mem_cons, mem_cons] at member
  rcases member with rfl | rfl | rfl | member
  · dsimp only
    omega
  · dsimp only
    omega
  · dsimp only
    omega
  · have place := mem_rest straight (spc_bounds accepted.spc).1 member
    omega

end

/-- The server after the mount. -/
def mountedOn (d : Device) (start : Nat) (geometry : Geometry) : Server :=
  Format.remounted (started d start) (started d start).disk geometry

theorem made_entry (accepted : Accepted layout sectors.toNat)
    (straight : Straight layout start.toNat)
    (done : writeAll (fat32Writes layout start sectors volumeId label) d = (true, d'))
    {cluster : Nat} (covered : cluster / 128 < layout.fatSize) :
    Format.diskEntry (mountedOn d' start.toNat (madeGeometry layout sectors.toNat)) cluster =
      if cluster = 0 then fat32EocMin else if cluster = 1 ∨ cluster = 2 then fat32Eoc else 0 := by
  have fat : ∀ i < sectorSize, d'.disk (start.toNat + (32 + cluster / 128)) i =
      if cluster / 128 = 0 then fatFirst i else 0 := by
    rw [writeAll_success done, ← add_assoc]
    exact made_fat straight accepted.fats d.disk covered
  have read : Format.diskEntry (mountedOn d' start.toNat
      (madeGeometry layout sectors.toNat)) cluster = getLe 4 (4 * (cluster % 128)) fun i =>
          if cluster / 128 = 0 then fatFirst i else 0 :=
    getLe_congr fun i _ high => fat i (by unfold sectorSize; omega)
  rw [read]
  by_cases first : cluster / 128 = 0
  · simp only [first, if_true]
    rw [show fatFirst = Fs.Format.formatFatFirst from rfl,
      Format.formatFatFirst_entry, show cluster % 128 = cluster by omega]
  · simp only [first, if_false]
    rw [getLe_zero fun _ _ _ => rfl, if_neg (by omega), if_neg (by omega)]

theorem made_emptied (accepted : Accepted layout sectors.toNat)
    (contains : start.toNat + sectors.toNat ≤ d.totalSectors)
    (straight : Straight layout start.toNat)
    (done : writeAll (fat32Writes layout start sectors volumeId label) d = (true, d'))
    (covers : clusters layout sectors.toNat + 2 ≤ 128 * layout.fatSize) :
    Emptied (mountedOn d' start.toNat (madeGeometry layout sectors.toNat)) := by
  have room := accepted.room
  have fatRoom := @fat_room layout 0 (by rcases accepted.fats with one | two <;> omega)
  have current : Format.Current (mountedOn d' start.toNat
      (madeGeometry layout sectors.toNat)) := fun _ window => by cases window
  have sameTotal : d'.totalSectors = d.totalSectors := by rw [writeAll_success done]
  have space : 32 + layout.numFats * layout.fatSize + layout.sectorsPerClus ≤
      d'.totalSectors - start.toNat := by
    omega
  have read : ∀ cluster, cluster / 128 < layout.fatSize →
      (fatRead (mountedOn d' start.toNat (madeGeometry layout sectors.toNat))
        cluster).1 = (if cluster = 0 then fat32EocMin
          else if cluster = 1 ∨ cluster = 2 then fat32Eoc else 0) % fatMask := by
    intro cluster covered
    rw [← made_entry accepted straight done covered]
    refine Format.fatRead_current current rfl ?_ covered
    show 32 + layout.fatSize ≤ d'.totalSectors - start.toNat
    omega
  obtain ⟨refused, closed, orphaned⟩ := (Format.files_silent
    (s := mountedOn d' start.toNat (madeGeometry layout sectors.toNat))
    (Format.remounted_noClusters _ _ _) rfl rfl).mpr fun _ _ used => nomatch used
  refine ⟨?_, ?_, ?_, rfl, current, Format.remounted_noClusters _ _ _, refused, closed, orphaned⟩
  · have root := read 2 (by omega)
    show fat32EocMin ≤ (fatRead (mountedOn d' start.toNat (madeGeometry layout sectors.toNat)) 2).1
    rw [root]
    decide
  · have low : 32 + layout.numFats * layout.fatSize < word32 := by
      have small : sectors.toNat < word32 := sectors.toNat_lt
      omega
    refine (Format.readRoot_zero (s := mountedOn d' start.toNat (madeGeometry layout sectors.toNat))
      (Format.remounted_noClusters _ _ _) rfl low).mpr ⟨space, fun sector inside i low => ?_⟩
    show d'.disk (start.toNat + (32 + layout.numFats * layout.fatSize + sector)) i = 0
    rw [writeAll_success done]
    show overlay _ d.disk _ i = 0
    rw [made_root straight d.disk inside]
    rfl
  · intro cluster low below other
    change cluster < clusters layout sectors.toNat + 2 at below
    change cluster ≠ 2 at other
    rw [read cluster (by omega), if_neg (by omega), if_neg (by omega)]
    rfl

end Call

/-- A call that returns true has made a proper empty volume exactly for such
partitions. -/
theorem fat32_made {self mallocAt start sectors : UInt32} {d d' : Device}
    {opts : Option MkfsOptions} (contains : start.toNat + sectors.toNat ≤ d.totalSectors)
    (done : fat32Mkfs self mallocAt d start sectors opts = (true, d')) :
    Made d d' start.toNat sectors.toNat ↔ ∃ spc, chooseSpc sectors.toNat opts = some spc ∧
        Enough start.toNat sectors.toNat spc (chooseNumFats opts) := by
  have small : sectors.toNat < word32 := sectors.toNat_lt
  unfold fat32Mkfs at done
  split at done
  · cases done
  next layout decided =>
    obtain ⟨accepted, chosen, fats⟩ := fat32Layout_accepted decided
    rw [← fats]
    constructor
    · intro made
      have straight := straight_of_inside accepted done made.inside
      obtain ⟨s, mounted, laid, _⟩ := made.mounts
      rw [mount_made accepted contains straight done] at mounted
      split at mounted
      · cases mounted
      cases mounted
      obtain ⟨noWrap, surplus, slack⟩ := (covers_iff small accepted).mp laid.covers
      refine ⟨_, chosen, noWrap, surplus, slack, ?_⟩
      rw [← fatSize_eq small accepted noWrap surplus]
      exact straight
    · rintro ⟨spc, same, enough⟩
      cases chosen.symm.trans same
      have size := fatSize_eq small accepted enough.noWrap enough.started
      have straight : Straight layout start.toNat := by
        unfold Straight
        rw [size]
        exact enough.addressable
      have covers := (covers_iff small accepted).mpr ⟨enough.noWrap, enough.started, enough.slack⟩
      have mounted := mount_made accepted contains straight done
      rw [if_neg (by omega)] at mounted
      have room := accepted.room
      refine ⟨inside_of_straight accepted straight done, _, mounted,
        ⟨covers, (by decide : 6 < 32), le_refl _, ?_, ?_⟩,
        made_emptied accepted contains straight done covers⟩
      · show 32 + layout.numFats * layout.fatSize +
          clusters layout sectors.toNat * layout.sectorsPerClus ≤ sectors.toNat
        have whole : clusters layout sectors.toNat * layout.sectorsPerClus ≤
          sectors.toNat - 32 - layout.numFats * layout.fatSize := Nat.div_mul_le_self _ _
        omega
      · show 2 ≤ 2 ∧ 2 < clusters layout sectors.toNat + 2
        have one : 1 ≤ clusters layout sectors.toNat :=
          (Nat.le_div_iff_mul_le (spc_bounds accepted.spc).1).mpr (by omega)
        omega

end MainDob.Proofs.Fat32Ops
