/-
Purpose: The layout the exFAT formatter of libdob accepts: when its clusters fit the
  volume it is laid out properly, and no sum has wrapped.
Main exports: Accepted, exfatLayout_accepted, Proper
-/
import MainDob.Fs.ExfatOps
import Mathlib.Tactic.Common

namespace MainDob.Proofs.ExfatLayout

open Fs Fs.ExfatOps

/-- What the checks of `exfat_mkfs` promise of a layout, before any sum is
looked at. -/
structure Accepted (layout : Layout) (sectors : Nat) : Prop where
  shift : layout.bpsShift = 9 ∨ layout.bpsShift = 12
  cluster : layout.bpsShift + layout.spcShift ≤ 25
  large : 2048 ≤ sectors
  volume : layout.volLsec = sectors / layout.s512
  heap : layout.heapOffset = (128 + ((((layout.volLsec + word32 - 128) % word32 /
    layout.spc + 2) * 4 % word32 + (layout.bps - 1)) % word32 / layout.bps) +
      (layout.spc - 1)) % word32 / layout.spc * layout.spc
  fat : layout.fatLen = (layout.heapOffset + word32 - 128) % word32
  count : layout.clusterCount = (layout.volLsec + word32 - layout.heapOffset) % word32 / layout.spc
  enough : 4 ≤ layout.clusterCount
  bitmap : layout.bitmapBytes = (layout.clusterCount + 7) % word32 / 8
  clusters : layout.bmpClusters = (layout.bitmapBytes +
    layout.spc * layout.bps - 1) % word32 / (layout.spc * layout.bps)
  root : layout.bmpClusters + 3 < layout.bps / 4

theorem clusShift_bounds {sectors bpsShift shift : Nat} {opts : Option MkfsOptions}
    (logical : bpsShift = 9 ∨ bpsShift = 12) (chosen : clusShift sectors bpsShift opts = some shift)
    : bpsShift ≤ shift ∧ shift ≤ 25 := by
  unfold clusShift at chosen
  dsimp only at chosen
  split at chosen
  · split at chosen
    · cases chosen
    · cases chosen
      omega
  · cases chosen
    unfold chooseClusShift
    dsimp only
    split_ifs <;> omega

theorem exfatLayout_accepted {sectors : Nat} {opts : Option MkfsOptions} {layout : Layout}
    (accepted : exfatLayout sectors opts = some layout) : Accepted layout sectors ∧
    logicalBytes opts = layout.bps ∧ layout.bpsShift = bpsShiftOf (logicalBytes opts) ∧
      clusShift sectors layout.bpsShift opts = some (layout.bpsShift + layout.spcShift) := by
  unfold exfatLayout at accepted
  dsimp only at accepted
  split at accepted
  · cases accepted
  next logical =>
  split at accepted
  · cases accepted
  next large =>
  obtain ⟨bps, isBps⟩ : logicalBytes opts = 2 ^ bpsShiftOf (logicalBytes opts) ∧
      (bpsShiftOf (logicalBytes opts) = 9 ∨ bpsShiftOf (logicalBytes opts) = 12) := by
    unfold bpsShiftOf
    split
    · next wide => exact ⟨wide, .inr rfl⟩
    · next other => exact ⟨by omega, .inl rfl⟩
  generalize bpsShiftOf (logicalBytes opts) = bpsShift at *
  rw [bps] at accepted ⊢
  split at accepted
  · cases accepted
  split at accepted
  · cases accepted
  next shift chosen =>
  split at accepted
  · cases accepted
  next enough =>
  split at accepted
  · cases accepted
  next root =>
    cases accepted
    have bounds := clusShift_bounds isBps chosen
    have whole : bpsShift + (shift - bpsShift) = shift := by omega
    have bytes : 2 ^ (shift - bpsShift) * 2 ^ bpsShift = 2 ^ shift := by
      rw [← Nat.pow_add, add_comm, whole]
    refine ⟨⟨isBps, by dsimp only; omega, by omega, rfl, rfl, rfl, rfl,
      by dsimp only; omega, rfl, ?_, ?_⟩, rfl, rfl, ?_⟩
    · unfold Layout.spc Layout.bps
      rw [bytes]
    · unfold Layout.rootCluster Layout.upcaseCluster at root
      unfold Layout.bps
      dsimp only at root ⊢
      omega
    · dsimp only
      rw [whole]
      exact chosen

/-! ## Clusters no larger than the volume -/

theorem sub_wrap {a b : Nat} (less : b ≤ a) (small : a < word32) :
    (a + word32 - b) % word32 = a - b := by
  rw [show a + word32 - b = a - b + word32 by omega, Nat.add_mod_right]
  exact Nat.mod_eq_of_lt (by omega)

theorem roundUp_bounds {n spc : Nat} (some : 1 ≤ spc) :
    n ≤ (n + (spc - 1)) / spc * spc ∧ (n + (spc - 1)) / spc * spc < n + spc := by
  have whole := Nat.div_mul_le_self (n + (spc - 1)) spc
  have next := Nat.lt_div_mul_add (a := n + (spc - 1)) (b := spc) (by omega)
  omega

section Sizes

variable {layout : Layout} {sectors : Nat}

theorem bps_cases (accepted : Accepted layout sectors) :
    (layout.bps = 512 ∧ layout.s512 = 1) ∨ (layout.bps = 4096 ∧ layout.s512 = 8) := by
  unfold Layout.bps Layout.s512
  rcases accepted.shift with small | large
  · rw [small]
    exact .inl ⟨rfl, rfl⟩
  · rw [large]
    exact .inr ⟨rfl, rfl⟩

theorem spc_pos (layout : Layout) : 1 ≤ layout.spc := Nat.one_le_two_pow

theorem spc_le (accepted : Accepted layout sectors) : layout.spc ≤ 2 ^ 16 := by
  have shift := accepted.shift
  have cluster := accepted.cluster
  exact Nat.pow_le_pow_right (by decide) (by omega)

theorem volume_bounds (small : sectors < word32) (accepted : Accepted layout sectors) :
    256 ≤ layout.volLsec ∧ layout.volLsec < word32 ∧
    layout.volLsec * layout.s512 ≤ sectors ∧ sectors < (layout.volLsec + 1) * layout.s512 := by
  have large := accepted.large
  have volume := accepted.volume
  rcases bps_cases accepted with ⟨_, s512⟩ | ⟨_, s512⟩
  · rw [s512] at volume ⊢
    omega
  · rw [s512] at volume ⊢
    omega

/-- The estimate of the clusters. -/
def estimate (layout : Layout) : Nat := (layout.volLsec - 128) / layout.spc

section

variable (small : sectors < word32) (accepted : Accepted layout sectors)
include small accepted

theorem estimate_bounds : estimate layout * layout.spc ≤ layout.volLsec - 128 ∧
      layout.volLsec - 128 < estimate layout * layout.spc + layout.spc ∧
      estimate layout ≤ layout.volLsec - 128 ∧
      (layout.volLsec + word32 - 128) % word32 / layout.spc = estimate layout := by
  have volume := volume_bounds small accepted
  have some := spc_pos layout
  refine ⟨Nat.div_mul_le_self _ _, Nat.lt_div_mul_add (by omega), Nat.div_le_self _ _, ?_⟩
  rw [sub_wrap (by omega) (by omega)]
  rfl

/-- A table whose size in bytes wraps has a bitmap too long for one sector of the
FAT. -/
theorem estimate_small : (estimate layout + 2) * 4 + layout.bps ≤ word32 := by
  by_contra wraps
  obtain ⟨low, high, short, same⟩ := estimate_bounds small accepted
  have volume := volume_bounds small accepted
  have some := spc_pos layout
  obtain ⟨bps, s512⟩ : layout.bps = 512 ∧ layout.s512 = 1 := by
    rcases bps_cases accepted with narrow | ⟨bps, wide⟩
    · exact narrow
    rw [wide] at volume
    unfold word32 at *
    omega
  have few : layout.spc ≤ 7 := by
    by_contra many
    have more := Nat.mul_le_mul_left (estimate layout) (show 8 ≤ layout.spc by omega)
    unfold word32 at *
    omega
  have heap := accepted.heap
  have count := accepted.count
  have bitmap := accepted.bitmap
  have clusters := accepted.clusters
  have root := accepted.root
  rw [same, bps] at heap
  rw [bps] at clusters root
  have bytes : (((estimate layout + 2) * 4 % word32 + (512 - 1)) % word32) / 512 ≤ 2 ^ 23 := by
    unfold word32 at *
    omega
  generalize ((estimate layout + 2) * 4 % word32 + (512 - 1)) % word32 / 512 = fatLen at *
  have noWrap : (128 + fatLen + (layout.spc - 1)) % word32 = 128 + fatLen + (layout.spc - 1) :=
    Nat.mod_eq_of_lt (by unfold word32; omega)
  obtain ⟨above, limit⟩ := @roundUp_bounds (128 + fatLen) layout.spc some
  rw [noWrap] at heap
  rw [sub_wrap (by unfold word32 at *; omega) (by omega)] at count
  have many : 2 ^ 29 ≤ layout.clusterCount := by
    rw [count]
    refine (Nat.le_div_iff_mul_le some).mpr ?_
    have product : (2 ^ 30 - 130) * layout.spc ≤ estimate layout * layout.spc :=
      Nat.mul_le_mul_right _ (by unfold word32 at *; omega)
    omega
  have limitCount : layout.clusterCount ≤ layout.volLsec - layout.heapOffset := by
    rw [count]
    exact Nat.div_le_self _ _
  rw [Nat.mod_eq_of_lt (by omega)] at bitmap
  rw [Nat.mod_eq_of_lt (by unfold word32 at *; omega),
    show layout.bitmapBytes + layout.spc * 512 - 1 =
      layout.bitmapBytes + (layout.spc * 512 - 1) by omega] at clusters
  have holds := (@roundUp_bounds layout.bitmapBytes (layout.spc * 512) (by omega)).1
  rw [← clusters] at holds
  have short : layout.bmpClusters * (layout.spc * 512) ≤ 125 * (7 * 512) :=
    Nat.mul_le_mul (by omega) (Nat.mul_le_mul_right _ few)
  omega

end

/-- The sectors of the FAT, before they are rounded up to clusters. -/
def fatSectors (layout : Layout) : Nat :=
  ((estimate layout + 2) * 4 + (layout.bps - 1)) / layout.bps

theorem heap_eq (small : sectors < word32) (accepted : Accepted layout sectors) :
    layout.heapOffset = (128 + fatSectors layout + (layout.spc - 1)) / layout.spc * layout.spc := by
  have fits := estimate_small small accepted
  have same := (estimate_bounds small accepted).2.2.2
  have heap := accepted.heap
  have few := spc_le accepted
  have some : 1 ≤ layout.bps := Nat.one_le_two_pow
  have short : fatSectors layout ≤ 2 ^ 23 := by
    unfold fatSectors
    rcases bps_cases accepted with ⟨bps, _⟩ | ⟨bps, _⟩ <;>
      rw [bps] at fits ⊢ <;> unfold word32 at fits <;> omega
  rw [heap, same, Nat.mod_eq_of_lt (show (estimate layout + 2) * 4 < word32 by omega),
    Nat.mod_eq_of_lt (show (estimate layout + 2) * 4 + (layout.bps - 1) < word32 by omega)]
  congr 2
  exact Nat.mod_eq_of_lt (show 128 + fatSectors layout + (layout.spc - 1) < word32 by
      unfold word32; omega)

theorem fatSectors_bounds (layout : Layout) :
    (estimate layout + 2) * 4 ≤ fatSectors layout * layout.bps ∧
      fatSectors layout * layout.bps < (estimate layout + 2) * 4 + layout.bps :=
  roundUp_bounds Nat.one_le_two_pow

/-- A volume whose parts lie one after the other. -/
structure Proper (layout : Layout) : Prop where
  someFat : 1 ≤ layout.fatLen
  heap : layout.heapOffset = 128 + layout.fatLen
  count : layout.clusterCount = (layout.volLsec - layout.heapOffset) / layout.spc
  fits : layout.heapOffset + layout.clusterCount * layout.spc ≤ layout.volLsec
  covers : layout.clusterCount + 2 ≤ layout.fatLen * (layout.bps / 4)
  bitmap : layout.bitmapBytes = (layout.clusterCount + 7) / 8
  someBmp : 1 ≤ layout.bmpClusters
  holds : layout.bitmapBytes ≤ layout.bmpClusters * (layout.spc * layout.bps)
  tight : layout.bmpClusters = (layout.bitmapBytes +
    (layout.spc * layout.bps - 1)) / (layout.spc * layout.bps)
  used : layout.bmpClusters + 2 ≤ layout.clusterCount

section

variable (small : sectors < word32) (accepted : Accepted layout sectors)
include small accepted

theorem heap_le (fits : layout.spc ≤ layout.volLsec) :
    128 + 1 ≤ layout.heapOffset ∧ layout.heapOffset ≤ layout.volLsec ∧
      (estimate layout + 2) * 4 ≤ (layout.heapOffset - 128) * layout.bps := by
  obtain ⟨low, high⟩ := fatSectors_bounds layout
  have heap := heap_eq small accepted
  generalize fatSectors layout = fatLen at *
  have volume := volume_bounds small accepted
  obtain ⟨above, below⟩ := @roundUp_bounds (128 + fatLen) layout.spc (spc_pos layout)
  obtain ⟨estLow, estHigh, _⟩ := estimate_bounds small accepted
  have positive := spc_pos layout
  have some : 1 ≤ fatLen := by
    by_contra none
    rw [show fatLen = 0 by omega] at low
    omega
  have table : (estimate layout + 2) * 4 ≤ (layout.heapOffset - 128) * layout.bps :=
    low.trans (Nat.mul_le_mul_right _ (by omega))
  refine ⟨by omega, ?_, table⟩
  have short : (fatLen - 1) * 512 < (estimate layout + 2) * 4 := by
    have wide : (fatLen - 1) * layout.bps < (estimate layout + 2) * 4 := by
      rw [Nat.sub_mul]
      omega
    have sector : 512 ≤ layout.bps := by
      rcases bps_cases accepted with ⟨bps, _⟩ | ⟨bps, _⟩ <;> omega
    exact lt_of_le_of_lt (Nat.mul_le_mul_left _ sector) wide
  rcases lt_or_ge (estimate layout) 1 with none | one
  · -- the first cluster reaches past the FAT
    have zero : estimate layout = 0 := by omega
    rw [zero] at estHigh short
    have first : layout.heapOffset = layout.spc := by
      rw [heap, show 128 + fatLen + (layout.spc - 1) = 128 + layout.spc by omega,
        Nat.add_div_right _ positive, Nat.div_eq_of_lt (by omega), zero_add, one_mul]
    omega
  · have rest : estimate layout - 1 ≤ (estimate layout - 1) * layout.spc :=
      Nat.le_mul_of_pos_right _ positive
    rw [Nat.sub_mul] at rest
    have spread : layout.spc ≤ estimate layout * layout.spc := Nat.le_mul_of_pos_left _ one
    omega

theorem exfatLayout_proper (fits : layout.spc ≤ layout.volLsec) : Proper layout := by
  obtain ⟨someFat, heap, table⟩ := heap_le small accepted fits
  have volume := volume_bounds small accepted
  have positive := spc_pos layout
  have estimated := estimate_bounds small accepted
  have enough := accepted.enough
  have fatLen : layout.fatLen = layout.heapOffset - 128 := by
    rw [accepted.fat]
    exact sub_wrap (by omega) (by omega)
  have count : layout.clusterCount = (layout.volLsec - layout.heapOffset) / layout.spc := by
    rw [accepted.count, sub_wrap heap volume.2.1]
  have inside : layout.clusterCount * layout.spc ≤ layout.volLsec - layout.heapOffset := by
    rw [count]
    exact Nat.div_mul_le_self _ _
  have fewer : layout.clusterCount ≤ estimate layout := by
    rw [count]
    exact Nat.div_le_div_right (by omega)
  have bitmap : layout.bitmapBytes = (layout.clusterCount + 7) / 8 := by
    have shorter := Nat.le_mul_of_pos_right layout.clusterCount positive
    rw [accepted.bitmap, Nat.mod_eq_of_lt (by omega)]
  have bytes : 512 ≤ layout.spc * layout.bps := by
    refine le_trans ?_ (Nat.le_mul_of_pos_left _ positive)
    rcases bps_cases accepted with ⟨bps, _⟩ | ⟨bps, _⟩ <;> omega
  have narrow : layout.spc * layout.bps ≤ 2 ^ 25 := by
    unfold Layout.spc Layout.bps
    rw [← Nat.pow_add]
    exact Nat.pow_le_pow_right (by decide) (by have := accepted.cluster; omega)
  have clusters : layout.bmpClusters = (layout.bitmapBytes +
      (layout.spc * layout.bps - 1)) / (layout.spc * layout.bps) := by
    rw [accepted.clusters, Nat.mod_eq_of_lt (by unfold word32 at *; omega),
      Nat.add_sub_assoc (by omega)]
  obtain ⟨above, below⟩ := @roundUp_bounds layout.bitmapBytes (layout.spc * layout.bps) (by omega)
  rw [← clusters] at above below
  have someBmp : 1 ≤ layout.bmpClusters := by
    by_contra none
    rw [show layout.bmpClusters = 0 by omega] at above
    omega
  refine ⟨by omega, by omega, count, by omega, ?_, bitmap, someBmp, above, clusters, ?_⟩
  · rw [fatLen]
    rcases bps_cases accepted with ⟨bps, _⟩ | ⟨bps, _⟩ <;> rw [bps] at table ⊢ <;> omega
  have spread : (layout.bmpClusters - 1) * 512 ≤
      (layout.bmpClusters - 1) * (layout.spc * layout.bps) :=
    Nat.mul_le_mul_left _ bytes
  rw [Nat.sub_mul (n := layout.bmpClusters) (k := layout.spc * layout.bps)] at spread
  omega

theorem heap_outside (larger : layout.volLsec < layout.spc) : layout.heapOffset = layout.spc := by
  obtain ⟨low, high⟩ := fatSectors_bounds layout
  have heap := heap_eq small accepted
  generalize fatSectors layout = fatLen at *
  have volume := volume_bounds small accepted
  have zero : estimate layout = 0 := Nat.div_eq_of_lt (by omega)
  have one : fatLen = 1 := by
    rcases bps_cases accepted with ⟨bps, _⟩ | ⟨bps, _⟩ <;>
      rw [bps] at low high <;> omega
  rw [heap, one, show 128 + 1 + (layout.spc - 1) = 128 + layout.spc by omega,
    Nat.add_div_right _ (spc_pos layout), Nat.div_eq_of_lt (by omega), zero_add, one_mul]

end

end Sizes

end MainDob.Proofs.ExfatLayout
