/-
Purpose: What the exFAT driver finds on a volume the formatter of libdob has made:
  the geometry, an empty root, and the clusters of the metadata in use.
Trusted boundary: a transfer that starts below 2³² sectors goes on from there.
Main exports: reader, volumeOf, mounted
-/
import MainDob.Proofs.ExfatOps

namespace MainDob.Proofs.ExfatMount

open Lib.Bytes Block Fs.Exfat ExfatLayout ExfatOps
open Fs hiding Volume
open Fs.ExfatOps
open Format (getLe_zeroSector)
open List Option

/-! ## The sectors that are read -/

/-- The volume as the mount takes it from the boot sector. -/
def volumeOf (layout : Layout) : Volume where
  bpsShift := layout.bpsShift
  spcShift := layout.spcShift
  cszShift := layout.bpsShift + layout.spcShift
  s512Shift := layout.bpsShift - 9
  fatOffset := 128
  fatLength := layout.fatLen
  clusterHeap := layout.heapOffset
  clusterCount := layout.clusterCount
  rootCluster := layout.rootCluster
  numFats := 1
  bitmapCluster := 0
  bitmapBytes := 0
  upcaseCluster := 0
  upcaseBytes := 0
  nextFree := 0
  fatCache := none

/-- The volume after the scan of its root. -/
def mounted (layout : Layout) : Volume :=
  { volumeOf layout with
    bitmapCluster := 2
    bitmapBytes := layout.bitmapBytes
    upcaseCluster := layout.upcaseCluster
    upcaseBytes := 60 }

section Sectors

variable {layout : Layout} {sectors : Nat} {label : Option (List UInt8)}

theorem layout_small (small : sectors < word32)
    (accepted : Accepted layout sectors) (proper : Proper layout) :
    layout.volLsec < word32 ∧ layout.fatLen < word32 ∧ layout.heapOffset < word32 ∧
      layout.clusterCount < word32 ∧ layout.rootCluster < word32 ∧ layout.bitmapBytes < word32 := by
  have volume := (volume_bounds small accepted).2.1
  have heap := proper.heap
  have fits := proper.fits
  have bitmap := proper.bitmap
  have used := proper.used
  have shorter := Nat.le_mul_of_pos_right layout.clusterCount (spc_pos layout)
  unfold Layout.rootCluster Layout.upcaseCluster
  omega

theorem bootSector_bytes (accepted : Accepted layout sectors) :
    isExfat (bootSector layout) = true ∧ bootSector layout 0 = 0xEB ∧ bootSector layout 510 = 0x55 ∧
      bootSector layout 511 = 0xAA ∧ (bootSector layout 108).toNat = layout.bpsShift ∧
      (bootSector layout 109).toNat = layout.spcShift ∧ bootSector layout 110 = 1 := by
  have cluster := accepted.cluster
  have name : ∀ i < 8, bootSector layout (3 + i) =
      ([0x45, 0x58, 0x46, 0x41, 0x54, 0x20, 0x20, 0x20][i]?).getD 0 := by
    intro i inside
    unfold bootSector
    rw [putBytes_apart (by omega), putBytes_apart (by omega),
      putBytes_apart (by omega), putBytes_apart (by simp; omega), putBytes_apart (by simp; omega),
      putBytes_apart (by omega), putBytes_apart (by simp; omega), putBytes_apart (by simp; omega),
      putBytes_apart (by simp; omega), putBytes_apart (by simp; omega),
      putBytes_apart (by simp; omega), putBytes_apart (by simp; omega)]
    match i, inside with
    | 0, _ | 1, _ | 2, _ | 3, _ | 4, _ | 5, _ | 6, _ | 7, _ => rfl
  have fieldBps : getLe 1 108 (bootSector layout) = layout.bpsShift % 256 ^ 1 := by
    unfold bootSector
    simp (disch := simp) only [getLe_putBytes_apart, getLe_putBytes]
  have fieldSpc : getLe 1 109 (bootSector layout) = layout.spcShift % 256 ^ 1 := by
    unfold bootSector
    simp (disch := simp) only [getLe_putBytes_apart, getLe_putBytes]
  have byte : ∀ off, getLe 1 off (bootSector layout) = (bootSector layout off).toNat := by
    intro off
    simp [getLe]
  rw [byte, Nat.mod_eq_of_lt (by omega)] at fieldBps fieldSpc
  refine ⟨?_, ?_, ?_, ?_, fieldBps, fieldSpc, ?_⟩
  · unfold isExfat
    rfl
  · simp [bootSector, putBytes]
  · simp [bootSector, putBytes]
  · simp [bootSector, putBytes]
  · simp [bootSector, putBytes]

section

variable (small : sectors < word32) (accepted : Accepted layout sectors) (proper : Proper layout)
include small accepted proper

theorem bootSector_fields : getLe 4 80 (bootSector layout) = 128 ∧
    getLe 4 84 (bootSector layout) = layout.fatLen ∧ getLe 4 88
    (bootSector layout) = layout.heapOffset ∧ getLe 4 92 (bootSector layout) = layout.clusterCount ∧
    getLe 4 96 (bootSector layout) = layout.rootCluster := by
  obtain ⟨_, fat, heap, count, root, _⟩ := layout_small small accepted proper
  have width : 256 ^ 4 = word32 := rfl
  unfold bootSector
  simp (disch := simp) only [getLe_putBytes_apart, getLe_putBytes, width,
    Nat.mod_eq_of_lt fat, Nat.mod_eq_of_lt heap, Nat.mod_eq_of_lt count, Nat.mod_eq_of_lt root]
  decide

theorem exfatParse_bootSector : exfatParse (bootSector layout) = some (volumeOf layout) := by
  obtain ⟨name, jump, first, second, bps, spc, fats⟩ := bootSector_bytes accepted
  obtain ⟨offset, length, heap, count, root⟩ := bootSector_fields small accepted proper
  have shift := accepted.shift
  have cluster := accepted.cluster
  unfold exfatParse
  rw [name, jump, first, second, bps, spc, fats, offset, length, heap, count, root]
  rw [if_neg (by decide), if_neg (by decide), if_neg (by decide), if_neg (by omega),
    if_neg (by omega), if_neg (by unfold Layout.rootCluster Layout.upcaseCluster; omega)]
  rfl

end

theorem length_label (label : Option (List UInt8)) :
    ((((label.getD []).take 11).map Fat32Ops.upper).flatMap
      fun c => [c, (0x00 : UInt8)]).length ≤ 22 := by
  have pairs : ∀ chars : List UInt8,
      (chars.flatMap fun c => [c, (0x00 : UInt8)]).length = 2 * chars.length := by
    intro chars
    induction chars with
    | nil => rfl
    | cons _ _ ih =>
      rw [flatMap_cons, length_append, ih]
      simp
      omega
  rw [pairs, length_map, length_take]
  omega

theorem two_le_rootCluster (layout : Layout) : 2 ≤ layout.rootCluster := by
  unfold Layout.rootCluster Layout.upcaseCluster
  omega

theorem rootSector_entries (small : sectors < word32) (accepted : Accepted layout sectors)
    (proper : Proper layout) : rootSector layout label (0 * 32 + 0) = 0x83 ∧
    rootSector layout label ((0 + 1) * 32 + 0) = 0x81 ∧
    rootSector layout label ((0 + 1) * 32 + 1) = 0 ∧
    rootSector layout label ((0 + 1 + 1) * 32 + 0) = 0x82 ∧
    rootSector layout label ((0 + 1 + 1 + 1) * 32 + 0) = 0 ∧ getLe 4 52
    (rootSector layout label) = 2 ∧ getLe 8 56 (rootSector layout label) = layout.bitmapBytes ∧
    getLe 4 84 (rootSector layout label) = layout.upcaseCluster ∧
    getLe 8 88 (rootSector layout label) = 60 := by
  obtain ⟨_, _, _, _, root, bitmap⟩ := layout_small small accepted proper
  have upcase : layout.upcaseCluster < word32 := by
    unfold Layout.rootCluster at root
    omega
  have short := length_label label
  have width : 256 ^ 4 = word32 := rfl
  unfold rootSector
  dsimp only
  generalize ((((label.getD []).take 11).map Fat32Ops.upper).flatMap
    fun c => [c, (0x00 : UInt8)]) = chars at *
  generalize UInt8.ofNat (((label.getD []).take 11).map Fat32Ops.upper).length = count
  refine ⟨?_, ?_, ?_, ?_, ?_, ?_, ?_, ?_, ?_⟩
  · simp [putBytes]
  · simp [putBytes]
  · rw [putBytes_apart (by omega), putBytes_apart (by omega),
      putBytes_apart (by omega), putBytes_apart (by omega),
      putBytes_apart (by omega), putBytes_apart (by omega), putBytes_apart (by simp),
      putBytes_apart (by simp), putBytes_apart (by omega), putBytes_apart (by simp)]
    rfl
  · simp [putBytes]
  · rw [putBytes_apart (by simp), putBytes_apart (by simp), putBytes_apart (by simp),
      putBytes_apart (by simp), putBytes_apart (by simp), putBytes_apart (by simp), putBytes_apart
      (by simp), putBytes_apart (by simp), putBytes_apart (by omega), putBytes_apart (by simp)]
    rfl
  · simp (disch := simp) only [getLe_putBytes_apart, getLe_putBytes]
    rfl
  · rw [getLe_add 4 4]
    simp (disch := simp) only [getLe_putBytes_apart, getLe_putBytes, width, Nat.mod_eq_of_lt bitmap]
    rw [getLe_putBytes_apart (by omega), getLe_putBytes_apart (by simp),
      getLe_zeroSector, mul_zero, add_zero]
  · simp (disch := simp) only [getLe_putBytes_apart, getLe_putBytes, width, Nat.mod_eq_of_lt upcase]
  · have first : getLe 1 88 (putBytes (64 + 24) [60] (putBytes (64 + 20)
        (leBytes 4 layout.upcaseCluster) (putBytes (64 + 4)
          (leBytes 4 (upcaseChecksum upcaseTable)) (putBytes 64 [0x82]
            (putBytes (32 + 24) (leBytes 4 layout.bitmapBytes)
              (putBytes (32 + 20) (leBytes 4 layout.bitmapCluster)
                (putBytes 32 [0x81] (putBytes 1 [count] (putBytes 2 chars
                  (putBytes 0 [0x83] zeroSector)))))))))) = 60 := by
      simp [getLe, putBytes]
    rw [getLe_add 1 7, first]
    simp (disch := simp) only [getLe_putBytes_apart]
    rw [getLe_putBytes_apart (by omega), getLe_putBytes_apart (by simp),
      getLe_zeroSector, mul_zero, add_zero]

end Sectors

/-! ## The cursor -/

theorem dirCurNext_entry {rd : Reader} {v : Volume} {c : DirCur} {sec : Sector}
    (cluster : 2 ≤ c.cluster) (unsized : c.sized = false)
    (read : dirCurSector rd v c = some sec) (left : c.entInSec < 16) :
    dirCurNext rd v c = (.entry fun i => sec (c.entInSec * 32 + i), v, { c with
        sec := some sec
        entInSec := c.entInSec + 1
        entryIndex := c.entryIndex + 1 }) := by
  unfold dirCurNext dirCurRound
  rw [if_neg (by omega), unsized, read]
  simp [left]

/-- A cursor that is in the first sector of the root, before its `i`-th entry. -/
def inRoot (cluster i : Nat) (sec : Option Sector) : DirCur :=
  ⟨cluster, false, false, 0, 0, i, i, 0, sec⟩

theorem dirCurNext_inRoot {rd : Reader} {v : Volume} {cluster i : Nat} {loaded : Option Sector}
    {sec : Sector} (real : 2 ≤ cluster)
    (read : dirCurSector rd v (inRoot cluster i loaded) = some sec) (left : i < 16) :
    dirCurNext rd v (inRoot cluster i loaded) =
      (.entry fun k => sec (i * 32 + k), v, inRoot cluster (i + 1) (some sec)) :=
  dirCurNext_entry real rfl read left

theorem entryBound_split (v : Volume) : ∃ rounds, entryBound v = rounds + 4 := by
  refine ⟨entryBound v - 4, ?_⟩
  have entries : 0 < (v.clusterCount + 1) * 2 ^ (v.cszShift - 9) :=
    Nat.mul_pos (Nat.succ_pos _) (Nat.two_pow_pos _)
  unfold entryBound
  omega

section Mount

variable {layout : Layout} {base sectors : Nat} {label : Option (List UInt8)} {rd : Reader}

/-- The sectors of the mounted volume that matter, as `rd` reads them. -/
structure Reads (layout : Layout) (label : Option (List UInt8)) (rd : Reader) :
    Prop where
  boot : rd 0 = some (bootSector layout)
  fat : ∀ j < layout.fatLen * layout.s512, rd (128 * layout.s512 + j) =
    some fun i => if j < layout.s512 then
      Fs.ExfatOps.fatSector layout (j * sectorSize + i) else 0
  bitmap : ∀ j < layout.bmpClusters * layout.spc * layout.s512,
    rd (layout.heapOffset * layout.s512 + j) = some fun i =>
      if j < layout.s512 then setBits layout.usedClusters (j * sectorSize + i)
      else 0
  root : rd (layout.lbaOf layout.rootCluster * layout.s512) = some (rootSector layout label)

section

variable (small : sectors < word32)
include small

section

variable (accepted : Accepted layout sectors) (proper : Proper layout)
include accepted proper

theorem clusterLba512_eq {v : Volume} (heap : v.clusterHeap = layout.heapOffset)
    (spc : v.spcShift = layout.spcShift) (s512 : v.s512Shift = layout.bpsShift - 9) {cluster : Nat}
    (low : 2 ≤ cluster) (high : cluster ≤ layout.rootCluster) :
    clusterLba512 v cluster = some (layout.lbaOf cluster * layout.s512) := by
  have volume := volume_bounds small accepted
  have rootSmall := (layout_small small accepted proper).2.2.2.2.1
  have inside := root_inside proper
  have lower : layout.lbaOf cluster ≤ layout.lbaOf layout.rootCluster := by
    exact Nat.add_le_add_left (Nat.mul_le_mul_right _ (by omega)) _
  have scaled : layout.lbaOf cluster * layout.s512 ≤
      layout.volLsec * layout.s512 := Nat.mul_le_mul_right _ (by omega)
  have same : (v.clusterHeap + (cluster + word32 - 2) % word32 *
      2 ^ v.spcShift) * 2 ^ v.s512Shift = layout.lbaOf cluster * layout.s512 := by
    rw [heap, spc, s512, sub_wrap low (by omega)]
    rfl
  unfold clusterLba512
  dsimp only
  rw [same, if_neg (by unfold word32 at *; omega)]

section

variable (reads : Reads layout label rd)
include reads

theorem rootSector_read {v : Volume} (heap : v.clusterHeap = layout.heapOffset)
    (spc : v.spcShift = layout.spcShift) (s512 : v.s512Shift = layout.bpsShift - 9) :
    dirCurSector rd v (inRoot layout.rootCluster 0 none) = some (rootSector layout label) := by
  have real := two_le_rootCluster layout
  have address := clusterLba512_eq small accepted proper heap spc s512 real (le_refl _)
  show (clusterLba512 v layout.rootCluster).bind (fun base => rd (base + 0)) = _
  rw [address]
  exact reads.root

theorem exfatMount_made : exfatMount rd = some (mounted layout) := by
  obtain ⟨labelEntry, bitmapEntry, flags, upcaseEntry, ending, bitmapCluster,
    bitmapBytes, upcaseCluster, upcaseBytes⟩ :=
    @rootSector_entries layout sectors label small accepted proper
  have real := two_le_rootCluster layout
  have parsed := exfatParse_bootSector small accepted proper
  have start := @rootSector_read layout sectors label rd small accepted proper
    reads (volumeOf layout) rfl rfl rfl
  -- a field of an entry is one of the sector
  have field : ∀ width off place, getLe width off (fun k =>
      rootSector layout label (place * 32 + k)) =
        getLe width (place * 32 + off) (rootSector layout label) :=
    fun width off place => getLe_shift fun i _ => by rw [add_assoc]
  obtain ⟨rounds, enough⟩ := entryBound_split (volumeOf layout)
  unfold exfatMount
  rw [reads.boot, bind_some, parsed, bind_some, enough]
  show scanRoot rd (rounds + 4) (volumeOf layout) (inRoot layout.rootCluster 0 none) = _
  -- the label, the bitmap, the up-case table, the end
  rw [scanRoot, dirCurNext_inRoot real start (by decide)]
  dsimp only
  rw [if_neg (by rw [labelEntry]; decide), if_neg (by rw [labelEntry]; decide),
    if_neg (by rw [labelEntry]; decide)]
  rw [scanRoot, dirCurNext_inRoot real rfl (by decide)]
  dsimp only
  rw [if_neg (by rw [bitmapEntry]; decide),
    if_pos (by rw [bitmapEntry]),
    if_pos (by rw [flags]; rfl)]
  rw [scanRoot, dirCurNext_inRoot real rfl (by decide)]
  dsimp only
  rw [if_neg (by rw [upcaseEntry]; decide),
    if_neg (by rw [upcaseEntry]; decide),
    if_pos (by rw [upcaseEntry])]
  rw [scanRoot, dirCurNext_inRoot real rfl (by decide)]
  dsimp only
  rw [if_pos (by rw [ending])]
  rw [field, field, field, field, bitmapCluster, bitmapBytes, upcaseCluster, upcaseBytes]
  rfl

theorem dirNextFile_made : (dirNextFile rd
    (mounted layout) (dirCurInit (mounted layout).rootCluster false false 0)).1 = .finished := by
  obtain ⟨labelEntry, bitmapEntry, _, upcaseEntry, ending, _⟩ :=
    @rootSector_entries layout sectors label small accepted proper
  have real := two_le_rootCluster layout
  have start := @rootSector_read layout sectors label rd small accepted proper
    reads (mounted layout) rfl rfl rfl
  obtain ⟨rounds, enough⟩ := entryBound_split (mounted layout)
  unfold dirNextFile
  rw [enough]
  show (dirNextFileLoop rd (rounds + 4) (mounted layout) (inRoot layout.rootCluster 0 none)).1 = _
  rw [dirNextFileLoop, dirCurNext_inRoot real start (by decide)]
  dsimp only
  rw [if_neg (by rw [labelEntry]; decide), if_pos (by rw [labelEntry]; decide)]
  rw [dirNextFileLoop, dirCurNext_inRoot real rfl (by decide)]
  dsimp only
  rw [if_neg (by rw [bitmapEntry]; decide),
    if_pos (by rw [bitmapEntry]; decide)]
  rw [dirNextFileLoop, dirCurNext_inRoot real rfl (by decide)]
  dsimp only
  rw [if_neg (by rw [upcaseEntry]; decide),
    if_pos (by rw [upcaseEntry]; decide)]
  rw [dirNextFileLoop, dirCurNext_inRoot real rfl (by decide)]
  dsimp only
  rw [if_pos (by rw [ending])]

end

end

end

/-! ## The clusters in use -/

theorem setBits_testBit (count : Nat) {byte bit : Nat} (inside : bit < 8) :
    (setBits count byte).toNat.testBit bit = decide (byte * 8 + bit < count) := by
  induction count with
  | zero => simp [setBits, zeroSector]
  | succ count ih =>
    have next : setBits (count + 1) = putBytes (count / 8)
        [UInt8.ofNat ((setBits count (count / 8)).toNat ||| 2 ^ (count % 8))] (setBits count) := by
      unfold setBits
      rw [range_succ, foldl_append]
      rfl
    rw [next]
    by_cases here : byte = count / 8
    · have value : putBytes (count / 8) [UInt8.ofNat ((setBits count
          (count / 8)).toNat ||| 2 ^ (count % 8))] (setBits count) byte =
            UInt8.ofNat ((setBits count byte).toNat ||| 2 ^ (count % 8)) := by
        subst here
        simp [putBytes]
      rw [value, UInt8.toNat_ofNat', Nat.testBit_mod_two_pow, Nat.testBit_or,
        ih, Nat.testBit_two_pow]
      simp only [inside, decide_true, Bool.true_and, ← Bool.decide_or, decide_eq_decide]
      omega
    · rw [putBytes_apart (by simp; omega), ih]
      simp only [decide_eq_decide]
      omega

theorem bitmapBit_made (small : sectors < word32) (accepted : Accepted layout sectors)
    (proper : Proper layout) (reads : Reads layout label rd) {cluster : Nat} (low : 2 ≤ cluster)
    (high : cluster < layout.clusterCount + 2) :
    bitmapBit rd (mounted layout) cluster = some (decide (cluster < layout.rootCluster + 1)) := by
  have volume := volume_bounds small accepted
  have heap := proper.heap
  have fits := proper.fits
  have shorter := Nat.le_mul_of_pos_right layout.clusterCount (spc_pos layout)
  have real := two_le_rootCluster layout
  have address := clusterLba512_eq small accepted proper
    (show (mounted layout).clusterHeap = layout.heapOffset from rfl) rfl rfl (le_refl 2) real
  have heapAt : layout.lbaOf 2 = layout.heapOffset := (lbaOf_eq layout).1
  rw [heapAt] at address
  have bytes : layout.bps = 512 * layout.s512 := by
    rcases bps_cases accepted with ⟨bps, s512⟩ | ⟨bps, s512⟩ <;> omega
  have inside : (cluster - 2) / 8 / 512 < layout.bmpClusters * layout.spc * layout.s512 := by
    have holds := proper.holds
    rw [bytes, mul_left_comm layout.spc, mul_left_comm layout.bmpClusters,
      ← mul_assoc layout.bmpClusters, proper.bitmap] at holds
    omega
  have below : (layout.heapOffset * layout.s512 + layout.bmpClusters * layout.spc * layout.s512) ≤
        layout.volLsec * layout.s512 := by
    rw [← add_mul]
    have root := root_inside proper
    rw [(lbaOf_eq layout).2.2] at root
    exact Nat.mul_le_mul_right _ (by omega)
  have readBack := reads.bitmap _ inside
  have few := accepted.root
  unfold bitmapBit bitmapLocate
  dsimp only
  have noWrap : layout.heapOffset * layout.s512 + (cluster - 2) / 8 / 512 < word32 := by omega
  rw [show (mounted layout).bitmapCluster = 2 from rfl, address,
    sub_wrap low (by omega), map_some, bind_some]
  rw [Nat.mod_eq_of_lt noWrap, readBack, map_some, Option.some.injEq]
  split
  · unfold sectorSize Layout.usedClusters
    dsimp only
    rw [show (cluster - 2) / 8 / 512 * 512 + (cluster - 2) / 8 % 512 =
      (cluster - 2) / 8 by omega, setBits_testBit _ (by omega), decide_eq_decide]
    unfold Layout.rootCluster Layout.upcaseCluster
    omega
  · have past : layout.bps / 4 + 2 ≤ cluster := by
      omega
    unfold Layout.rootCluster Layout.upcaseCluster
    exact (Nat.zero_testBit _).trans (decide_eq_false (by omega)).symm

/-- The entries of the FAT: the bitmap is a chain, the up-case table and the root
are clusters of their own. -/
theorem fatSector_entry (layout : Layout) {cluster : Nat} (low : 2 ≤ cluster) :
    getLe 4 (cluster * 4) (Fs.ExfatOps.fatSector layout) = if cluster < 2 + layout.bmpClusters then
        if cluster + 1 < 2 + layout.bmpClusters then (cluster + 1) % word32
        else exfatEoc else if cluster < layout.rootCluster + 1 then exfatEoc else 0 := by
  have chain : ∀ (clusters count : Nat) (marks : Sector), count ≤ clusters →
      getLe 4 (cluster * 4) ((List.range count).foldl (fun sec i =>
        putBytes ((2 + i) * 4) (leBytes 4 (if i + 1 < clusters then 2 + i + 1
          else exfatEoc)) sec) marks) =
        if cluster < 2 + count then
          if cluster + 1 < 2 + clusters then (cluster + 1) % word32 else exfatEoc
        else getLe 4 (cluster * 4) marks := by
    intro clusters count marks
    induction count with
    | zero =>
      intro _
      rw [if_neg (by omega)]
      rfl
    | succ count ih =>
      intro room
      rw [range_succ, foldl_append, foldl_cons, foldl_nil]
      by_cases here : cluster = 2 + count
      · subst here
        rw [getLe_putBytes, if_pos (show 2 + count < 2 + (count + 1) by omega)]
        by_cases more : count + 1 < clusters
        · rw [if_pos more, if_pos (show 2 + count + 1 < 2 + clusters by omega)]
          rfl
        · rw [if_neg more, if_neg (show ¬ 2 + count + 1 < 2 + clusters by omega)]
          rfl
      · rw [getLe_putBytes_apart (by rw [length_leBytes]; omega), ih (by omega)]
        by_cases earlier : cluster < 2 + count
        · rw [if_pos earlier, if_pos (show cluster < 2 + (count + 1) by omega)]
        · rw [if_neg earlier, if_neg (show ¬ cluster < 2 + (count + 1) by omega)]
  have root : layout.rootCluster = 2 + layout.bmpClusters + 1 := rfl
  have upcase : layout.upcaseCluster = 2 + layout.bmpClusters := rfl
  have ending : exfatEoc % 256 ^ 4 = exfatEoc := rfl
  unfold Fs.ExfatOps.fatSector Layout.bitmapCluster
  rw [root, upcase]
  by_cases isRoot : cluster = 2 + layout.bmpClusters + 1
  · rw [isRoot, getLe_putBytes, ending, if_neg (by omega), if_pos (by omega)]
  rw [getLe_putBytes_apart (by rw [length_leBytes]; omega)]
  by_cases isUpcase : cluster = 2 + layout.bmpClusters
  · rw [isUpcase, getLe_putBytes, ending, if_neg (by omega), if_pos (by omega)]
  rw [getLe_putBytes_apart (by rw [length_leBytes]; omega),
    chain layout.bmpClusters _ _ (le_refl _)]
  by_cases inBitmap : cluster < 2 + layout.bmpClusters
  · rw [if_pos inBitmap, if_pos inBitmap]
  rw [if_neg inBitmap, if_neg inBitmap,
    if_neg (show ¬ cluster < 2 + layout.bmpClusters + 1 + 1 by omega),
    getLe_putBytes_apart (by rw [length_leBytes]; omega),
    getLe_putBytes_apart (by rw [length_leBytes]; omega), getLe_zeroSector]

theorem fatNext_made (small : sectors < word32) (accepted : Accepted layout sectors)
    (proper : Proper layout) (reads : Reads layout label rd) {cluster : Nat} (low : 2 ≤ cluster)
    (high : cluster < layout.clusterCount + 2) : (fatNext rd (mounted layout) cluster).1 =
      some (getLe 4 (cluster * 4) (Fs.ExfatOps.fatSector layout)) := by
  have volume := volume_bounds small accepted
  have few := accepted.root
  have covers := proper.covers
  have heap := proper.heap
  have fits := proper.fits
  have bytes : layout.bps = 512 * layout.s512 := by
    rcases bps_cases accepted with ⟨bps, s512⟩ | ⟨bps, s512⟩ <;> omega
  have inside : cluster / 128 < layout.fatLen * layout.s512 := by
    rw [bytes, show 512 * layout.s512 / 4 = 128 * layout.s512 by omega, mul_left_comm] at covers
    omega
  have below : 128 * layout.s512 + layout.fatLen * layout.s512 ≤ layout.volLsec * layout.s512 := by
    rw [← add_mul]
    exact Nat.mul_le_mul_right _ (by omega)
  have place : 128 * 2 ^ layout.bpsShift + cluster * 4 =
      512 * (128 * layout.s512 + cluster / 128) + cluster * 4 % 512 := by
    rw [show 2 ^ layout.bpsShift = 512 * layout.s512 from bytes]
    omega
  have lba : (128 * 2 ^ layout.bpsShift + cluster * 4) / 512 =
      128 * layout.s512 + cluster / 128 := by
    rw [place, Nat.mul_add_div (by decide), Nat.div_eq_of_lt (Nat.mod_lt _ (by decide)), add_zero]
  have off : (128 * 2 ^ layout.bpsShift + cluster * 4) % 512 = cluster * 4 % 512 := by
    rw [place, Nat.mul_add_mod, Nat.mod_mod]
  unfold fatNext
  dsimp only
  rw [show (mounted layout).fatOffset = 128 from rfl,
    show (mounted layout).bpsShift = layout.bpsShift from rfl, lba, off,
    if_neg (by unfold word32 at *; omega)]
  unfold Exfat.fatSector
  dsimp only [mounted, volumeOf]
  rw [reads.fat _ inside, map_some, Option.some.injEq]
  by_cases first : cluster / 128 < layout.s512
  · refine getLe_shift fun i bound => ?_
    rw [if_pos first]
    congr 1
    unfold sectorSize
    omega
  · rw [fatSector_entry layout low, if_neg (show ¬ cluster < 2 + layout.bmpClusters by omega),
      if_neg (by unfold Layout.rootCluster Layout.upcaseCluster; omega)]
    exact getLe_zero fun _ _ _ => if_neg first

end Mount

/-! ## The formatter -/

/-- The sectors of a partition, as the driver reads them. -/
def reader (d : Device) (start : Nat) : Reader := fun lba =>
  if start + lba < d.totalSectors then some (d.disk (start + lba)) else none

/-- The clusters of the metadata of a volume. -/
def Metadata (v : Volume) (cluster : Nat) : Prop :=
  (v.bitmapCluster ≤ cluster ∧ cluster < v.bitmapCluster +
    (v.bitmapBytes + (2 ^ v.cszShift - 1)) / 2 ^ v.cszShift) ∨
  (v.upcaseCluster ≤ cluster ∧ cluster < v.upcaseCluster +
    (v.upcaseBytes + (2 ^ v.cszShift - 1)) / 2 ^ v.cszShift) ∨
  cluster = v.rootCluster

/-- The parts of the volume lie one after the other, inside the partition, and
the FAT has an entry for every cluster. -/
structure Laid (v : Volume) (sectors : Nat) : Prop where
  covers : v.clusterCount + 2 ≤ v.fatLength * (2 ^ v.bpsShift / 4)
  boot : 24 ≤ v.fatOffset
  fat : v.fatOffset + v.fatLength ≤ v.clusterHeap
  fits : v.clusterHeap + v.clusterCount * 2 ^ v.spcShift ≤ sectors / 2 ^ v.s512Shift
  bits : v.clusterCount ≤ v.bitmapBytes * 8

/-- The root has no file, the metadata is of clusters of the heap, and exactly
these are marked in the bitmap and have an entry in the FAT, of the cluster that
comes next or of the end. -/
structure Empty (rd : Reader) (v : Volume) : Prop where
  noFile : (dirNextFile rd v (dirCurInit v.rootCluster false false 0)).1 = .finished
  metadata : ∀ cluster, Metadata v cluster → 2 ≤ cluster ∧ cluster < v.clusterCount + 2
  used : ∀ cluster, Metadata v cluster → bitmapBit rd v cluster = some true ∧
    ∃ next, (fatNext rd v cluster).1 = some next ∧
      (next = cluster + 1 ∧ Metadata v next ∨ fatBad ≤ next)
  free : ∀ cluster, 2 ≤ cluster → cluster < v.clusterCount + 2 →
    ¬ Metadata v cluster → bitmapBit rd v cluster = some false ∧ (fatNext rd v cluster).1 = some 0

/-- A call of `exfat_mkfs` has done its work: it has written inside the partition
only, and the mount gets an empty volume that is laid out properly. -/
structure Made (d d' : Device) (start sectors : Nat) : Prop where
  inside : Inside d d' start sectors
  mounts : ∃ v, exfatMount (reader d' start) = some v ∧ Laid v sectors ∧ Empty (reader d' start) v

/-- The partitions `exfat_mkfs` makes a volume of: a cluster of `spc` logical
sectors, of `s512` sectors each, fits the volume, and the last request, for the
root directory, starts below 2³². -/
structure Enough (start sectors bps spc : Nat) : Prop where
  fits : spc * (bps / 512) ≤ sectors
  addressable :
    let volume := sectors / (bps / 512)
    let fatLen := (((volume - 128) / spc + 2) * 4 + (bps - 1)) / bps
    let heap := (128 + fatLen + (spc - 1)) / spc * spc
    let bitmapBytes := ((volume - heap) / spc + 7) / 8
    let bmpClusters := (bitmapBytes + (spc * bps - 1)) / (spc * bps)
    start + (heap + bmpClusters * spc + spc) * (bps / 512) + regionLast (bps / 512) spc < word32

section Call

variable {layout : Layout} {start sectors : UInt32} {d d' : Device} {label : Option (List UInt8)}

section

variable (accepted : Accepted layout sectors.toNat)
include accepted

section

variable (proper : Proper layout)
include proper

theorem reads_made (contains : start.toNat + sectors.toNat ≤ d.totalSectors)
    (straight : Straight layout start.toNat)
    (done : writeAll (exfatWrites layout start.toNat label) d = (true, d')) :
    Reads layout label (reader d' start.toNat) := by
  have small : sectors.toNat < word32 := sectors.toNat_lt
  have volume := volume_bounds small accepted
  have root := root_inside proper
  have heap := proper.heap
  have positive := spc_pos layout
  rw [(lbaOf_eq layout).2.2] at root
  -- what lies in the volume lies on the disk
  have onDisk : ∀ lba, lba < layout.volLsec * layout.s512 →
      reader d' start.toNat lba = some (d'.disk (start.toNat + lba)) := by
    intro lba below
    refine if_pos ?_
    rw [writeAll_success done]
    show start.toNat + lba < d.totalSectors
    omega
  have scaled : ∀ n ≤ layout.volLsec, n * layout.s512 ≤ layout.volLsec * layout.s512 :=
    fun n le => Nat.mul_le_mul_right _ le
  have after : d'.disk = overlay (exfatWrites layout start.toNat label) d.disk := by
    rw [writeAll_success done]
  refine ⟨?_, fun j inside => ?_, fun j inside => ?_, ?_⟩
  · have some := Nat.mul_pos (show 0 < layout.volLsec by omega) (s512_pos layout)
    rw [onDisk 0 some, after]
    exact congrArg _ (funext (made_boot small accepted proper straight d.disk))
  · have below := scaled (128 + layout.fatLen) (by omega)
    rw [add_mul] at below
    rw [onDisk _ (by omega), after]
    exact congrArg _ (funext (made_fat small accepted proper straight d.disk inside))
  · have below := scaled (layout.heapOffset + layout.bmpClusters * layout.spc) (by omega)
    rw [add_mul] at below
    rw [onDisk _ (by omega), after]
    exact congrArg _ (funext (made_bitmap small accepted proper straight d.disk inside))
  · have below := scaled (layout.lbaOf layout.rootCluster + layout.spc) (root_inside proper)
    have some := Nat.mul_pos positive (s512_pos layout)
    rw [add_mul] at below
    rw [onDisk _ (by omega), after]
    exact congrArg _ (funext (made_root small accepted proper straight d.disk))

theorem metadata_made (cluster : Nat) :
    Metadata (mounted layout) cluster ↔ 2 ≤ cluster ∧ cluster < layout.rootCluster + 1 := by
  have bytes : 2 ^ (layout.bpsShift + layout.spcShift) = layout.spc * layout.bps := by
    unfold Layout.spc Layout.bps
    rw [← Nat.pow_add, add_comm]
  have one : (60 + (layout.spc * layout.bps - 1)) / (layout.spc * layout.bps) = 1 := by
    have sector : 512 ≤ layout.spc * layout.bps := by
      refine le_trans ?_ (Nat.le_mul_of_pos_left _ (spc_pos layout))
      rcases bps_cases accepted with ⟨bps, _⟩ | ⟨bps, _⟩ <;> omega
    rw [show 60 + (layout.spc * layout.bps - 1) = layout.spc * layout.bps * 1 + 59
      by omega, Nat.mul_add_div (by omega), Nat.div_eq_of_lt (by omega)]
  unfold Metadata
  dsimp only [mounted, volumeOf]
  rw [bytes, one, ← proper.tight]
  unfold Layout.rootCluster Layout.upcaseCluster
  omega

theorem empty_made {rd : Reader} (reads : Reads layout label rd) : Empty rd (mounted layout) := by
  have small : sectors.toNat < word32 := sectors.toNat_lt
  have metadata := metadata_made accepted proper
  have used := proper.used
  have root : layout.rootCluster = layout.bmpClusters + 3 := by
    unfold Layout.rootCluster Layout.upcaseCluster
    omega
  have count : (mounted layout).clusterCount = layout.clusterCount := rfl
  have shorter := (layout_small small accepted proper).2.2.2.2.1
  refine ⟨dirNextFile_made small accepted proper reads, fun cluster owned => ?_,
    fun cluster owned => ?_, fun cluster low high other => ?_⟩
  · rw [metadata] at owned
    omega
  · rw [metadata] at owned
    rw [bitmapBit_made small accepted proper reads owned.1 (by omega),
      fatNext_made small accepted proper reads owned.1 (by omega),
      fatSector_entry layout owned.1, decide_eq_true owned.2]
    refine ⟨rfl, _, rfl, ?_⟩
    split
    · split
      · rw [Nat.mod_eq_of_lt (by omega), metadata]
        exact .inl ⟨rfl, by omega⟩
      · exact .inr (by decide)
    · rw [if_pos owned.2]
      exact .inr (by decide)
  · rw [metadata] at other
    have beyond : ¬ cluster < layout.rootCluster + 1 := by omega
    rw [bitmapBit_made small accepted proper reads low (by omega),
      fatNext_made small accepted proper reads low (by omega),
      fatSector_entry layout low, decide_eq_false beyond, if_neg (by omega), if_neg beyond]
    exact ⟨rfl, rfl⟩

theorem laid_made : Laid (mounted layout) sectors.toNat := by
  refine ⟨proper.covers, (by decide : 24 ≤ 128), le_of_eq proper.heap.symm, ?_, ?_⟩
  · have fits := proper.fits
    rw [accepted.volume] at fits
    exact fits
  · show layout.clusterCount ≤ layout.bitmapBytes * 8
    have bitmap := proper.bitmap
    omega

end

theorem not_inside (done : writeAll (exfatWrites layout start.toNat label) d = (true, d'))
    (larger : layout.volLsec < layout.spc) : ¬ Inside d d' start.toNat sectors.toNat := by
  intro inside
  have small : sectors.toNat < word32 := sectors.toNat_lt
  have volume := volume_bounds small accepted
  have heap := heap_outside small accepted larger
  have past : (layout.volLsec + 1) * layout.s512 ≤ layout.spc * layout.s512 :=
    Nat.mul_le_mul_right _ larger
  have near : layout.spc * layout.s512 ≤ 2 ^ 19 := by
    have few := spc_le accepted
    rcases bps_cases accepted with ⟨_, s512⟩ | ⟨_, s512⟩ <;> rw [s512] <;> omega
  have asked : writeLsec layout start.toNat (layout.lbaOf layout.bitmapCluster)
      (setBits layout.usedClusters) ∈ exfatWrites layout start.toNat label := by
    rw [exfatWrites_eq]
    unfold regionWrites writeRegion
    simp only [mem_cons, mem_append, cons_append, true_or, or_true]
  have place := (inside_iff done _ _).mp inside _ asked
  rw [(lbaOf_eq layout).1] at place
  unfold writeLsec at place
  dsimp only at place
  rw [heap] at place
  by_cases wraps : start.toNat + layout.spc * layout.s512 < word32
  · rw [Nat.mod_eq_of_lt wraps] at place
    omega
  rw [show start.toNat + layout.spc * layout.s512 =
      start.toNat + layout.spc * layout.s512 - word32 + word32 by omega,
    Nat.add_mod_right, Nat.mod_eq_of_lt (by unfold word32 at *; omega)] at place
  unfold word32 at *
  omega

theorem enough_iff : Enough start.toNat sectors.toNat layout.bps layout.spc ↔
      layout.spc ≤ layout.volLsec ∧ Straight layout start.toNat := by
  have small : sectors.toNat < word32 := sectors.toNat_lt
  have unit : layout.bps / 512 = layout.s512 := by
    rcases bps_cases accepted with ⟨bps, s512⟩ | ⟨bps, s512⟩ <;> rw [bps, s512]
  have volume : layout.spc * (layout.bps / 512) ≤ sectors.toNat ↔ layout.spc ≤ layout.volLsec := by
    rw [unit, accepted.volume]
    exact (Nat.le_div_iff_mul_le (s512_pos layout)).symm
  -- the closed form is the layout, where a cluster fits
  have closed : layout.spc ≤ layout.volLsec →
      (layout.heapOffset + (((layout.volLsec - layout.heapOffset) / layout.spc +
        7) / 8 + (layout.spc * layout.bps - 1)) / (layout.spc * layout.bps) *
          layout.spc + layout.spc) = layout.lbaOf layout.rootCluster := by
    intro fits
    have proper := exfatLayout_proper small accepted fits
    rw [← proper.count, ← proper.bitmap, ← proper.tight, (lbaOf_eq layout).2.2]
  have heap : (128 + (((layout.volLsec - 128) / layout.spc + 2) * 4 +
      (layout.bps - 1)) / layout.bps + (layout.spc - 1)) / layout.spc *
        layout.spc = layout.heapOffset := (heap_eq small accepted).symm
  constructor
  · rintro ⟨fits, addressable⟩
    have fits' := volume.mp fits
    rw [unit, ← accepted.volume] at addressable
    dsimp only at addressable
    rw [heap, closed fits'] at addressable
    exact ⟨fits', addressable⟩
  · rintro ⟨fits, addressable⟩
    refine ⟨volume.mpr fits, ?_⟩
    rw [unit, ← accepted.volume]
    dsimp only
    rw [heap, closed fits]
    exact addressable

end

end Call

theorem exfat_made {start sectors : UInt32} {d d' : Device} {opts : Option MkfsOptions}
    (contains : start.toNat + sectors.toNat ≤ d.totalSectors)
    (done : exfatMkfs d start sectors opts = (true, d')) : Made d d' start.toNat sectors.toNat ↔
      ∃ shift, clusShift sectors.toNat (bpsShiftOf (logicalBytes opts)) opts = some shift ∧
        Enough start.toNat sectors.toNat (logicalBytes opts)
          (2 ^ (shift - bpsShiftOf (logicalBytes opts))) := by
  have small : sectors.toNat < word32 := sectors.toNat_lt
  unfold exfatMkfs at done
  split at done
  · cases done
  next layout decided =>
    obtain ⟨accepted, bytes, logical, chosen⟩ := exfatLayout_accepted decided
    have spc : 2 ^ (layout.bpsShift + layout.spcShift - layout.bpsShift) = layout.spc := by
      rw [Nat.add_sub_cancel_left]
      rfl
    rw [← logical, bytes]
    constructor
    · intro made
      have fits : layout.spc ≤ layout.volLsec := by
        by_contra larger
        exact not_inside accepted done (by omega) made.inside
      have proper := exfatLayout_proper small accepted fits
      refine ⟨_, chosen, ?_⟩
      rw [spc]
      exact (enough_iff accepted).mpr ⟨fits, straight_of_inside small
        start.toNat_lt accepted proper done made.inside⟩
    · rintro ⟨shift, same, enough⟩
      cases chosen.symm.trans same
      rw [spc] at enough
      obtain ⟨fits, straight⟩ := (enough_iff accepted).mp enough
      have proper := exfatLayout_proper small accepted fits
      have reads := reads_made accepted proper contains straight done
      exact ⟨inside_of_straight small accepted proper straight done,
        mounted layout, exfatMount_made small accepted proper reads,
        laid_made accepted proper, empty_made accepted proper reads⟩

end MainDob.Proofs.ExfatMount
