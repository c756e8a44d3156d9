/-
Purpose: The exFAT formatter of libdob: when its requests stay in the partition, and
  what the mount of the exFAT driver finds there.
Main exports: Low, mem_writeRegion, overlay_writeRegion
-/
import MainDob.Fs.Exfat
import MainDob.Proofs.Block
import MainDob.Proofs.ExfatLayout
import MainDob.Proofs.Format

namespace MainDob.Proofs.ExfatOps

open Lib.Bytes Block Fs Fs.ExfatOps ExfatLayout
open List

/-! ## Regions -/

/-- Where the last request for a region starts, from its own start on. -/
def regionLast (s512 count : Nat) : Nat :=
  if count > 1 then s512 + lastChunk ((count - 1) * s512) else 0

/-- Every request for a region starts below 2³². -/
def Low (layout : Layout) (base lsec count : Nat) : Prop :=
  base + lsec * layout.s512 + regionLast layout.s512 count < word32

section Regions

variable {layout : Layout} {base lsec count : Nat} {sec : Nat → UInt8}

theorem s512_pos (layout : Layout) : 1 ≤ layout.s512 := Nat.one_le_two_pow

theorem regionLast_lt {s512 : Nat} (some : 1 ≤ count) (one : 1 ≤ s512) :
    regionLast s512 count < count * s512 := by
  have whole : (count - 1) * s512 + s512 = count * s512 := by
    rw [← Nat.succ_mul, Nat.succ_eq_add_one, Nat.sub_add_cancel some]
  unfold regionLast
  split
  · have last := lastChunk_lt (Nat.mul_pos (show 0 < count - 1 by omega) (show 0 < s512 by omega))
    omega
  · omega

theorem low_of_le (some : 1 ≤ count) (below : base + (lsec + count) * layout.s512 ≤ word32) :
    Low layout base lsec count := by
  have last := regionLast_lt some (s512_pos layout)
  rw [add_mul] at below
  unfold Low
  omega

theorem writeRegion_eq (low : Low layout base lsec count) (small : count * layout.s512 < word32) :
    writeRegion layout base lsec count sec = ⟨base + lsec * layout.s512, layout.s512, sec⟩ ::
        if count > 1 then zeroRegion
          (base + lsec * layout.s512 + layout.s512) ((count - 1) * layout.s512) else [] := by
  have next : base + (lsec + 1) * layout.s512 = base + lsec * layout.s512 + layout.s512 := by
    rw [Nat.succ_mul]
    omega
  unfold Low regionLast at low
  unfold writeRegion writeLsec
  rw [Nat.mod_eq_of_lt (by omega), next]
  split
  · next more =>
      rw [if_pos more] at low
      have fewer : (count - 1) * layout.s512 ≤ count * layout.s512 :=
        Nat.mul_le_mul_right _ (Nat.sub_le _ _)
      rw [Nat.mod_eq_of_lt (by omega), Nat.mod_eq_of_lt (by omega)]
  · rfl

theorem count_split (some : 1 ≤ count) :
    count * layout.s512 = layout.s512 + (count - 1) * layout.s512 := by
  rw [add_comm, ← Nat.succ_mul, Nat.succ_eq_add_one, Nat.sub_add_cancel some]

section

variable (some : 1 ≤ count) (low : Low layout base lsec count)
  (small : count * layout.s512 < word32)
include some low small

theorem mem_writeRegion {w : Write} (member : w ∈ writeRegion layout base lsec count sec) :
    base + lsec * layout.s512 ≤ w.lba ∧
      w.lba + w.count ≤ base + lsec * layout.s512 + count * layout.s512 := by
  have split := @count_split layout count some
  rw [writeRegion_eq low small] at member
  rcases mem_cons.mp member with rfl | member
  · dsimp only
    omega
  split at member
  · next more =>
      unfold Low regionLast at low
      rw [if_pos more] at low
      have place := zeroRegion_straight (by omega) member
      omega
  · cases member

theorem overlay_writeRegion (disk : Nat → Sector) {j : Nat}
    (inside : j < count * layout.s512) (i : Nat) :
    overlay (writeRegion layout base lsec count sec) disk (base + lsec * layout.s512 + j) i =
      if j < layout.s512 then sec (j * sectorSize + i) else 0 := by
  have split := @count_split layout count some
  rw [writeRegion_eq low small, overlay_cons]
  generalize isStart : base + lsec * layout.s512 = start at *
  have first : j < layout.s512 → (⟨start, layout.s512, sec⟩ : Write).apply disk (start + j) i =
        sec (j * sectorSize + i) := by
    intro here
    rw [apply_read (Nat.le_add_right start j) (Nat.add_lt_add_left here start),
      Nat.add_sub_cancel_left]
  split
  · next more =>
      unfold Low regionLast at low
      rw [isStart, if_pos more] at low
      rw [overlay_zeroRegion (by omega)]
      split
      · rw [if_neg (by omega)]
        rfl
      · rw [if_pos (by omega)]
        exact first (by omega)
  · next single =>
      have one : count = 1 := by omega
      rw [one, one_mul] at inside
      rw [overlay_nil, if_pos inside]
      exact first inside

end

theorem writeRegion_last (small : count * layout.s512 < word32) :
    ∃ w ∈ writeRegion layout base lsec count sec,
    w.lba = (base + lsec * layout.s512 + regionLast layout.s512 count) % word32 := by
  unfold writeRegion regionLast
  by_cases more : count > 1
  · rw [if_pos more, if_pos more]
    have fewer : (count - 1) * layout.s512 ≤ count * layout.s512 :=
      Nat.mul_le_mul_right _ (Nat.sub_le _ _)
    rw [Nat.mod_eq_of_lt (show (count - 1) * layout.s512 < word32 by omega)]
    obtain ⟨w, member, lba⟩ := @zeroRegion_last
      ((base + (lsec + 1) * layout.s512) % word32) ((count - 1) * layout.s512)
      (Nat.mul_pos (by omega) (s512_pos layout)) (Nat.mod_lt _ (by decide))
    refine ⟨w, mem_cons_of_mem _ member, ?_⟩
    rw [lba, Nat.mod_add_mod, Nat.succ_mul]
    congr 1
    omega
  · rw [if_neg more, if_neg more]
    exact ⟨_, mem_cons_self, rfl⟩

end Regions

theorem mem_writeBoot {layout : Layout} {base lsec : Nat} {sec : Nat → UInt8}
    (low : base + (lsec + 13) * layout.s512 ≤ word32) {w : Write}
    (member : w ∈ writeBoot layout base lsec sec) :
    base + lsec * layout.s512 ≤ w.lba ∧ w.lba + w.count ≤ base + (lsec + 13) * layout.s512 := by
  have one := s512_pos layout
  have near : lsec * layout.s512 + 13 * layout.s512 = (lsec + 13) * layout.s512 :=
    (add_mul _ _ _).symm
  have copy : lsec * layout.s512 + 12 * layout.s512 = (lsec + 12) * layout.s512 :=
    (add_mul _ _ _).symm
  unfold writeBoot writeLsec at member
  rw [Nat.mod_eq_of_lt (by omega), Nat.mod_eq_of_lt (by omega), mem_cons, mem_singleton] at member
  rcases member with rfl | rfl
  · dsimp only
    omega
  · dsimp only
    omega

/-! ## The requests of a call -/

/-- Every request of the call has its LBA below 2³². -/
def Straight (layout : Layout) (base : Nat) : Prop :=
  Low layout base (layout.lbaOf layout.rootCluster) layout.spc

section Call

variable {layout : Layout} {base sectors : Nat} {label : Option (List UInt8)}

theorem lbaOf_eq (layout : Layout) : layout.lbaOf layout.bitmapCluster = layout.heapOffset ∧
    layout.lbaOf layout.upcaseCluster = layout.heapOffset + layout.bmpClusters * layout.spc ∧
    layout.lbaOf layout.rootCluster = layout.heapOffset +
      layout.bmpClusters * layout.spc + layout.spc := by
  unfold Layout.lbaOf Layout.rootCluster Layout.upcaseCluster Layout.bitmapCluster
  refine ⟨by omega, ?_, ?_⟩
  · rw [Nat.add_sub_cancel_left]
  · rw [show 2 + layout.bmpClusters + 1 - 2 = layout.bmpClusters + 1 by omega, Nat.succ_mul]
    omega

theorem root_inside (proper : Proper layout) :
    layout.lbaOf layout.rootCluster + layout.spc ≤ layout.volLsec := by
  have used : (layout.bmpClusters + 2) * layout.spc ≤
      layout.clusterCount * layout.spc := Nat.mul_le_mul_right _ proper.used
  have fits := proper.fits
  rw [add_mul] at used
  rw [(lbaOf_eq layout).2.2]
  omega

theorem regions_low (proper : Proper layout) (straight : Straight layout base) :
    base + (128 + layout.fatLen) * layout.s512 ≤ word32 ∧
    base + (layout.heapOffset + layout.bmpClusters * layout.spc) * layout.s512 ≤ word32 ∧
    base + (layout.heapOffset + layout.bmpClusters * layout.spc + layout.spc) *
      layout.s512 ≤ word32 := by
  unfold Straight Low at straight
  rw [(lbaOf_eq layout).2.2] at straight
  have heap := proper.heap
  have first : (128 + layout.fatLen) * layout.s512 ≤
      (layout.heapOffset + layout.bmpClusters * layout.spc) * layout.s512 :=
    Nat.mul_le_mul_right _ (by omega)
  have second : (layout.heapOffset + layout.bmpClusters * layout.spc) *
      layout.s512 ≤ (layout.heapOffset + layout.bmpClusters * layout.spc +
        layout.spc) * layout.s512 := Nat.mul_le_mul_right _ (by omega)
  exact ⟨by omega, by omega, by omega⟩

theorem regions_small (small : sectors < word32) (accepted : Accepted layout sectors)
    (proper : Proper layout) : layout.fatLen * layout.s512 < word32 ∧
    layout.bmpClusters * layout.spc * layout.s512 < word32 ∧ layout.spc * layout.s512 < word32 := by
  have volume := (volume_bounds small accepted).2.2.1
  have root := root_inside proper
  rw [(lbaOf_eq layout).2.2, proper.heap] at root
  have scaled : ∀ n ≤ layout.volLsec, n * layout.s512 < word32 := fun n le =>
    lt_of_le_of_lt ((Nat.mul_le_mul_right _ le).trans volume) small
  exact ⟨scaled _ (by omega), scaled _ (by omega), scaled _ (by omega)⟩

/-- The regions of a call, in order. -/
def regionWrites (layout : Layout) (base : Nat) (label : Option (List UInt8)) :
    List Write :=
  writeRegion layout base fatOffset layout.fatLen (fatSector layout) ++
  (writeRegion layout base (layout.lbaOf layout.bitmapCluster)
    (layout.bmpClusters * layout.spc) (setBits layout.usedClusters) ++
  (writeRegion layout base (layout.lbaOf layout.upcaseCluster) layout.spc
    (putBytes 0 upcaseTable zeroSector) ++
  writeRegion layout base (layout.lbaOf layout.rootCluster) layout.spc (rootSector layout label)))

/-- The boot region but for its first sector, in order. -/
def bootWrites (layout : Layout) (base : Nat) : List Write :=
  ([1, 2, 3, 4, 5, 6, 7, 8].flatMap fun s =>
    writeBoot layout base s (extendedSector layout)) ++
  ([9, 10].flatMap fun s => writeBoot layout base s zeroSector) ++
  writeBoot layout base 11 (checksumSector layout)

theorem exfatWrites_eq (layout : Layout) (base : Nat)
    (label : Option (List UInt8)) : exfatWrites layout base label =
      writeLsec layout base 0 (bootSector layout) :: writeLsec layout base 12 (bootSector layout) ::
          (bootWrites layout base ++ regionWrites layout base label) := by
  rfl

theorem mem_bootWrites (low : base + 128 * layout.s512 ≤ word32) {w : Write}
    (member : w ∈ bootWrites layout base) :
    base + layout.s512 ≤ w.lba ∧ w.lba + w.count ≤ base + 128 * layout.s512 := by
  have inside : ∀ lsec sec, 1 ≤ lsec → lsec ≤ 11 → w ∈ writeBoot layout base lsec sec →
      base + layout.s512 ≤ w.lba ∧ w.lba + w.count ≤ base + 128 * layout.s512 := by
    intro lsec sec from_ to_ member
    have first : 1 * layout.s512 ≤ lsec * layout.s512 := Nat.mul_le_mul_right _ from_
    have last : (lsec + 13) * layout.s512 ≤ 128 * layout.s512 := Nat.mul_le_mul_right _ (by omega)
    have place := mem_writeBoot (by omega) member
    omega
  rcases mem_append.mp member with early | checksum
  · rcases mem_append.mp early with extended | oem
    · obtain ⟨lsec, listed, member⟩ := mem_flatMap.mp extended
      simp only [mem_cons, not_mem_nil, or_false] at listed
      exact inside lsec _ (by omega) (by omega) member
    · obtain ⟨lsec, listed, member⟩ := mem_flatMap.mp oem
      simp only [mem_cons, not_mem_nil, or_false] at listed
      exact inside lsec _ (by omega) (by omega) member
  · exact inside 11 _ (by decide) (by decide) checksum

section

variable (small : sectors < word32) (accepted : Accepted layout sectors)
  (proper : Proper layout) (straight : Straight layout base) {w : Write}
include small accepted proper straight

/-- The requests behind the allocation bitmap. -/
theorem mem_behind_bitmap (member : w ∈
      writeRegion layout base (layout.lbaOf layout.upcaseCluster) layout.spc
        (putBytes 0 upcaseTable zeroSector) ++
      writeRegion layout base (layout.lbaOf layout.rootCluster) layout.spc
        (rootSector layout label)) :
    base + (layout.heapOffset + layout.bmpClusters * layout.spc) * layout.s512 ≤ w.lba ∧
      w.lba + w.count ≤ base + layout.volLsec * layout.s512 := by
  obtain ⟨_, _, upcaseLow⟩ := regions_low proper straight
  have spcSmall := (regions_small small accepted proper).2.2
  obtain ⟨_, upcaseAt, rootAt⟩ := lbaOf_eq layout
  have positive := spc_pos layout
  have high := Nat.mul_le_mul_right layout.s512 (root_inside proper)
  rcases mem_append.mp member with upcase | last
  · rw [upcaseAt] at upcase
    have inside := mem_writeRegion positive (low_of_le positive upcaseLow) spcSmall upcase
    rw [rootAt, add_mul, add_mul] at high
    omega
  · have inside := mem_writeRegion positive straight spcSmall last
    rw [add_mul] at high
    rw [rootAt, add_mul] at inside high
    omega

/-- The requests behind the FAT. -/
theorem mem_behind_fat (member : w ∈
      writeRegion layout base (layout.lbaOf layout.bitmapCluster)
        (layout.bmpClusters * layout.spc) (setBits layout.usedClusters) ++
      (writeRegion layout base (layout.lbaOf layout.upcaseCluster) layout.spc
        (putBytes 0 upcaseTable zeroSector) ++
      writeRegion layout base (layout.lbaOf layout.rootCluster) layout.spc
        (rootSector layout label))) :
    base + (128 + layout.fatLen) * layout.s512 ≤ w.lba ∧
      w.lba + w.count ≤ base + layout.volLsec * layout.s512 := by
  have someBmp : 1 ≤ layout.bmpClusters * layout.spc :=
    Nat.mul_pos proper.someBmp (spc_pos layout)
  have root := root_inside proper
  rw [(lbaOf_eq layout).2.2] at root
  have low := Nat.mul_le_mul_right layout.s512
    (show 128 + layout.fatLen ≤ layout.heapOffset by have := proper.heap; omega)
  rcases mem_append.mp member with bitmap | behind
  · rw [(lbaOf_eq layout).1] at bitmap
    have inside := mem_writeRegion someBmp (low_of_le someBmp (regions_low proper straight).2.1)
      (regions_small small accepted proper).2.1 bitmap
    have high := Nat.mul_le_mul_right layout.s512
      (show layout.heapOffset + layout.bmpClusters * layout.spc ≤ layout.volLsec by omega)
    rw [add_mul] at high
    omega
  · have inside := mem_behind_bitmap small accepted proper straight behind
    rw [add_mul layout.heapOffset] at inside
    omega

theorem mem_regionWrites (member : w ∈ regionWrites layout base label) :
    base + 128 * layout.s512 ≤ w.lba ∧ w.lba + w.count ≤ base + layout.volLsec * layout.s512 := by
  have root := root_inside proper
  rw [(lbaOf_eq layout).2.2, proper.heap] at root
  have high := Nat.mul_le_mul_right layout.s512
    (show 128 + layout.fatLen ≤ layout.volLsec by omega)
  rcases mem_append.mp member with fat | behind
  · have inside := mem_writeRegion proper.someFat
      (low_of_le proper.someFat (regions_low proper straight).1)
      (regions_small small accepted proper).1 fat
    rw [add_mul] at high
    omega
  · have inside := mem_behind_fat small accepted proper straight behind
    rw [add_mul] at inside
    omega

end

theorem straight_of_inside {d d' : Device} (small : sectors < word32) (baseSmall : base < word32)
    (accepted : Accepted layout sectors) (proper : Proper layout)
    (done : writeAll (exfatWrites layout base label) d = (true, d'))
    (inside : Inside d d' base sectors) : Straight layout base := by
  have spcSmall := (regions_small small accepted proper).2.2
  have volume := (volume_bounds small accepted).2.2.1
  have last := regionLast_lt (spc_pos layout) (s512_pos layout)
  have room : layout.lbaOf layout.rootCluster * layout.s512 +
      layout.spc * layout.s512 ≤ layout.volLsec * layout.s512 := by
    rw [← add_mul]
    exact Nat.mul_le_mul_right _ (root_inside proper)
  obtain ⟨w, member, lba⟩ := @writeRegion_last layout base
    (layout.lbaOf layout.rootCluster) layout.spc (rootSector layout label) spcSmall
  have asked : w ∈ exfatWrites layout base label := by
    rw [exfatWrites_eq]
    unfold regionWrites
    simp only [mem_cons, mem_append, member, or_true]
  have low := ((inside_iff done _ _).mp inside w asked).1
  rw [lba] at low
  unfold Straight Low
  by_contra wraps
  rw [show base + layout.lbaOf layout.rootCluster * layout.s512 +
      regionLast layout.s512 layout.spc = base + layout.lbaOf
        layout.rootCluster * layout.s512 + regionLast layout.s512 layout.spc -
          word32 + word32 by omega, Nat.add_mod_right, Nat.mod_eq_of_lt (by omega)] at low
  omega

theorem boot_low (proper : Proper layout) (straight : Straight layout base) :
    base + 128 * layout.s512 ≤ word32 := by
  have fatLow := (regions_low proper straight).1
  have less : 128 * layout.s512 ≤ (128 + layout.fatLen) * layout.s512 :=
    Nat.mul_le_mul_right _ (by omega)
  omega

theorem inside_of_straight {d d' : Device} (small : sectors < word32)
    (accepted : Accepted layout sectors) (proper : Proper layout) (straight : Straight layout base)
    (done : writeAll (exfatWrites layout base label) d = (true, d')) :
    Inside d d' base sectors := by
  have volume := volume_bounds small accepted
  have bootLow := boot_low proper straight
  have one := s512_pos layout
  have wide : 128 * layout.s512 ≤ layout.volLsec * layout.s512 := Nat.mul_le_mul_right _ (by omega)
  rw [inside_iff done]
  intro w member
  rw [exfatWrites_eq, mem_cons, mem_cons, mem_append] at member
  unfold writeLsec at member
  rw [Nat.mod_eq_of_lt (by omega), Nat.mod_eq_of_lt (by omega)] at member
  rcases member with rfl | rfl | boot | region
  · dsimp only
    omega
  · dsimp only
    omega
  · have place := mem_bootWrites bootLow boot
    omega
  · have place := mem_regionWrites small accepted proper straight region
    omega

/-! ## The sectors afterwards -/

theorem made_boot (small : sectors < word32) (accepted : Accepted layout sectors)
    (proper : Proper layout) (straight : Straight layout base) (disk : Nat → Sector) (i : Nat) :
    overlay (exfatWrites layout base label) disk base i = bootSector layout i := by
  have bootLow := boot_low proper straight
  have one := s512_pos layout
  rw [exfatWrites_eq, ← nil_append (_ :: _), overlay_read]
  · unfold writeLsec
    rw [Nat.mod_eq_of_lt (by omega)]
    simp
  · unfold writeLsec
    rw [Nat.mod_eq_of_lt (by omega)]
    dsimp only
    omega
  · unfold writeLsec
    rw [Nat.mod_eq_of_lt (by omega)]
    dsimp only
    omega
  intro w member
  rw [mem_cons, mem_append] at member
  unfold writeLsec at member
  rw [Nat.mod_eq_of_lt (by omega)] at member
  rcases member with rfl | boot | region
  · exact .inl (show base < base + 12 * layout.s512 by omega)
  · have low := (mem_bootWrites bootLow boot).1
    exact .inl (show base < w.lba by omega)
  · have low := (mem_regionWrites small accepted proper straight region).1
    exact .inl (show base < w.lba by omega)

theorem overlay_exfatWrites (disk : Nat → Sector) : ∃ before, overlay
    (exfatWrites layout base label) disk = overlay (regionWrites layout base label) before := by
  refine ⟨overlay (writeLsec layout base 0 (bootSector layout) ::
    writeLsec layout base 12 (bootSector layout) :: bootWrites layout base) disk, ?_⟩
  rfl

section

variable (small : sectors < word32) (accepted : Accepted layout sectors) (proper : Proper layout)
  (straight : Straight layout base) (disk : Nat → Sector)
include small accepted proper straight disk

theorem made_fat {j : Nat} (inside : j < layout.fatLen * layout.s512)
    (i : Nat) : overlay (exfatWrites layout base label) disk (base + (128 * layout.s512 + j)) i =
      if j < layout.s512 then fatSector layout (j * sectorSize + i) else 0 := by
  obtain ⟨before, same⟩ := @overlay_exfatWrites layout base label disk
  rw [same]
  unfold regionWrites
  rw [overlay_append, overlay_apart, ← add_assoc, show fatOffset = 128 from rfl,
    overlay_writeRegion proper.someFat (low_of_le proper.someFat (regions_low proper straight).1)
      (regions_small small accepted proper).1 before inside]
  intro w member
  have behind := mem_behind_fat small accepted proper straight member
  rw [add_mul] at behind
  exact .inl (by omega)

theorem made_bitmap {j : Nat}
    (inside : j < layout.bmpClusters * layout.spc * layout.s512) (i : Nat) :
    overlay (exfatWrites layout base label) disk (base + (layout.heapOffset * layout.s512 + j)) i =
      if j < layout.s512 then setBits layout.usedClusters (j * sectorSize + i) else 0 := by
  obtain ⟨before, same⟩ := @overlay_exfatWrites layout base label disk
  have someBmp : 1 ≤ layout.bmpClusters * layout.spc :=
    Nat.mul_pos proper.someBmp (spc_pos layout)
  rw [same]
  unfold regionWrites
  rw [(lbaOf_eq layout).1, overlay_append, overlay_append, overlay_apart, ← add_assoc,
    overlay_writeRegion someBmp (low_of_le someBmp (regions_low proper straight).2.1)
      (regions_small small accepted proper).2.1 _ inside]
  intro w member
  have behind := mem_behind_bitmap small accepted proper straight member
  rw [add_mul layout.heapOffset] at behind
  exact .inl (by omega)

theorem made_root (i : Nat) : overlay (exfatWrites layout base label) disk
        (base + layout.lbaOf layout.rootCluster * layout.s512) i = rootSector layout label i := by
  obtain ⟨before, same⟩ := @overlay_exfatWrites layout base label disk
  have spcSmall := (regions_small small accepted proper).2.2
  have one := s512_pos layout
  have positive := spc_pos layout
  have some : 0 < layout.spc * layout.s512 := Nat.mul_pos positive one
  rw [same]
  unfold regionWrites
  rw [overlay_append, overlay_append, overlay_append]
  have first := @overlay_writeRegion layout base (layout.lbaOf layout.rootCluster) layout.spc
    (rootSector layout label) positive straight spcSmall
  rw [← add_zero (base + layout.lbaOf layout.rootCluster * layout.s512),
    first _ some, if_pos (by omega), zero_mul, zero_add]

end

end Call

end MainDob.Proofs.ExfatOps
