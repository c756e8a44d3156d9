/-
Purpose: What a successful FORMAT request leaves: exactly when the volume is
  empty and no cache of the server still holds something of the volume before.
Main exports: formatBoot_parse, handleFormat_success, format_empties
-/
import MainDob.Fs.Format
import Mathlib.Tactic.Common

namespace MainDob.Proofs.Format

open Lib.Bytes Fs.Format
open Fs hiding fatFlush fatCacheLoad fatRead fatWrite writeCluster

/-! ## The boot sector that is written, read back -/

theorem getLe_zeroSector (width off : Nat) : getLe width off zeroSector = 0 :=
  getLe_zero fun _ _ _ => rfl

theorem formatFatSectors_lt (total : Nat) : formatFatSectors total < 2 ^ 23 := by
  have small : ∀ n, n % word32 / sectorSize < 2 ^ 23 := by
    intro n
    unfold word32 sectorSize at *
    omega
  exact small _

theorem formatDataStart_eq (total : Nat) :
    formatDataStart total = 32 + formatFatSectors total * 2 := by
  have bound := formatFatSectors_lt total
  unfold formatDataStart formatReserved word32
  omega

/-- The geometry of a volume FORMAT has made. -/
def formatGeometry (total : Nat) : Geometry where
  sectorsPerCluster := formatSpc total
  fatStartLba := 32
  fatSizeSectors := formatFatSectors total
  numFats := 2
  rootCluster := 2
  partitionSectors := total
  dataStartLba := formatDataStart total
  totalClusters := (total - formatDataStart total) / formatSpc total

theorem formatBoot_fields (total : Nat) : getLe 2 11 (formatBoot total) = 512 ∧ getLe 1 13
    (formatBoot total) = formatSpc total ∧ getLe 2 14 (formatBoot total) = 32 ∧ getLe 1 16
    (formatBoot total) = 2 ∧ getLe 2 17 (formatBoot total) = 0 ∧ getLe 2 19 (formatBoot total) = 0 ∧
    getLe 2 22 (formatBoot total) = 0 ∧ getLe 4 32 (formatBoot total) = total % 256 ^ 4 ∧ getLe 4 36
    (formatBoot total) = formatFatSectors total % 256 ^ 4 ∧ getLe 4 44 (formatBoot total) = 2 := by
  have spc : formatSpc total % 256 ^ 1 = formatSpc total := by
    unfold formatSpc
    split <;> rfl
  unfold formatBoot
  simp (disch := simp) only [getLe_putBytes_apart, getLe_putBytes, getLe_zeroSector, spc]
  decide

theorem formatBoot_parse {total : Nat} (small : total < word32) {geometry : Geometry}
    (parsed : fat32Parse (formatBoot total) = some geometry) :
    formatDataStart total < total ∧ geometry = formatGeometry total := by
  obtain ⟨bytes, spc, reserved, fats, entries, total16, fat16, total32, fatSize,
    root⟩ := formatBoot_fields total
  have totalFits : total % 256 ^ 4 = total := Nat.mod_eq_of_lt small
  have fatFits : formatFatSectors total % 256 ^ 4 = formatFatSectors total :=
    Nat.mod_eq_of_lt (lt_trans (formatFatSectors_lt total) (by decide))
  have start := formatDataStart_eq total
  simp only [fat32Parse, bytes, spc, reserved, fats, entries, total16, fat16, total32,
    fatSize, root, totalFits, fatFits, Option.ite_none_left_eq_some, Option.some.injEq] at parsed
  obtain ⟨_, _, _, _, _, _, nonzero, room, _, same⟩ := parsed
  have present : total ≠ 0 := by
    intro none
    simp [none] at nonzero
  rw [if_neg present] at room same
  refine ⟨by omega, ?_⟩
  rw [← same, formatGeometry, start]
  simp only [Geometry.mk.injEq, true_and]
  refine ⟨by omega, ?_⟩
  congr 1
  omega

/-! ## The writes -/

theorem put_eq (s : Server) (lba : Nat) (sector : Sector) :
    put s lba sector = { s with
      sent := s.sent + 1
      disk := fun other => if other = lba ∧ lba < s.room then sector else s.disk other } := by
  unfold put diskWriteSectors
  by_cases inside : lba + 1 ≤ s.room
  · rw [if_pos inside]
    dsimp only
    congr 1
    funext other i
    by_cases here : other = lba
    · subst here
      rw [if_pos (by omega), if_pos (by omega), Nat.sub_self, Nat.zero_mul, Nat.zero_add]
    · rw [if_neg (by omega), if_neg (by omega)]
  · have outside : ∀ other, ¬ (other = lba ∧ lba < s.room) := by omega
    simp only [if_neg inside, outside, if_false]

theorem zeroSectors_eq (count : Nat) (s : Server) (lba : Nat) :
    zeroSectors count s lba = { s with
      sent := s.sent + count
      disk := fun other =>
        if lba ≤ other ∧ other < lba + count ∧ other < s.room then zeroSector
        else s.disk other } := by
  induction count generalizing s lba with
  | zero =>
    have never : ∀ other, ¬ (lba ≤ other ∧ other < lba + 0 ∧ other < s.room) := by omega
    simp only [zeroSectors, never, if_false]
    rfl
  | succ count ih =>
    rw [zeroSectors, ih, put_eq]
    dsimp only
    congr 1
    case e_sent => omega
    funext other
    by_cases first : other = lba
    · subst first
      by_cases inside : other < s.room
      · rw [if_neg (by omega), if_pos ⟨rfl, inside⟩, if_pos (by omega)]
      · rw [if_neg (by omega), if_neg (by omega), if_neg (by omega)]
    · rw [if_neg (c := other = lba ∧ lba < s.room) (by omega)]
      by_cases later : lba + 1 ≤ other ∧ other < lba + 1 + count ∧ other < s.room
      · rw [if_pos later, if_pos (by omega)]
      · rw [if_neg later, if_neg (by omega)]

/-- What `fat32_format` writes over a disk of `room` sectors. -/
def formattedDisk (total room : Nat) (disk : Nat → Sector) : Nat → Sector :=
  fun sector =>
    let fatSectors := formatFatSectors total
    let cleared := min fatSectors 256
    if formatDataStart total ≤ sector ∧
        sector < formatDataStart total + formatSpc total ∧ sector < room then
      zeroSector
    else if sector = 32 + fatSectors ∧ 32 + fatSectors < room then formatFatFirst
    else if sector = 32 ∧ 32 < room then formatFatFirst
    else if 32 + fatSectors ≤ sector ∧ sector < 32 + fatSectors + cleared ∧
        sector < room then zeroSector
    else if 32 ≤ sector ∧ sector < 32 + cleared ∧ sector < room then zeroSector
    else if sector = 7 ∧ 7 < room then formatFsinfo total
    else if sector = 1 ∧ 1 < room then formatFsinfo total
    else if sector = 6 ∧ 6 < room then formatBoot total
    else if sector = 0 ∧ 0 < room then formatBoot total
    else disk sector

variable {s' : Server}

theorem fat32Format_success {s : Server} (done : fat32Format s = (true, s')) :
    ∃ sectors sent, s.identify = some sectors ∧ 0 < s.room ∧
      s' = { s with sent := sent, disk := formattedDisk sectors.toNat s.room s.disk } := by
  unfold fat32Format at done
  split at done
  case h_1 => cases done
  case h_2 sectors known =>
      dsimp only at done
      split at done
      case isTrue => cases done
      case isFalse =>
          by_cases inside : 0 + 1 ≤ s.room
          · refine ⟨sectors, s'.sent, known, inside, ?_⟩
            have first : diskWriteSectors s 0 1 (formatBoot sectors.toNat) =
                (true, put s 0 (formatBoot sectors.toNat)) := by
              unfold put diskWriteSectors
              rw [if_pos inside]
            simp only [first, if_true, Prod.mk.injEq, true_and, zeroSectors_eq, put_eq] at done
            rw [← done]
            rfl
          · simp [diskWriteSectors, inside] at done

theorem fat32Parse_congr {boot other : Sector} (same : ∀ i < sectorSize, boot i = other i) :
    fat32Parse boot = fat32Parse other := by
  have field : ∀ width off, off + width ≤ sectorSize →
      getLe width off boot = getLe width off other :=
    fun width off inside => getLe_congr fun i _ high => same i (by omega)
  unfold fat32Parse
  rw [field 2 11 (by decide), field 1 13 (by decide), field 2 14 (by decide),
    field 1 16 (by decide), field 2 17 (by decide), field 2 19 (by decide),
    field 2 22 (by decide), field 4 32 (by decide), field 4 36 (by decide), field 4 44 (by decide)]

theorem formattedDisk_boot {room : Nat} (total : Nat) (disk : Nat → Sector)
    (inside : 0 < room) : formattedDisk total room disk 0 = formatBoot total := by
  have start := formatDataStart_eq total
  unfold formattedDisk
  rw [if_neg (by omega), if_neg (by omega), if_neg (by omega), if_neg (by omega), if_neg (by omega),
    if_neg (by omega), if_neg (by omega), if_neg (by omega), if_pos ⟨rfl, inside⟩]

theorem fat32Mount_success {s : Server} (done : fat32Mount s = (true, s')) :
    ∃ geometry, fat32Parse (s.disk 0) = some geometry ∧
      s' = clusterCacheReset { s with fs := geometry, mounted := true } := by
  have read : ∀ i < sectorSize, s.disk (0 + i / sectorSize) (i % sectorSize) = s.disk 0 i := by
    intro i inside
    rw [Nat.div_eq_of_lt inside, Nat.mod_eq_of_lt inside]
  unfold fat32Mount diskReadSectors at done
  by_cases inside : 0 + 1 ≤ s.room
  · rw [if_pos inside] at done
    dsimp only at done
    split at done
    case isTrue => cases done
    case isFalse =>
        split at done
        case h_1 => cases done
        case h_2 geometry parsed => exact ⟨geometry, parsed, (Prod.mk.inj done).2.symm⟩
  · rw [if_neg inside] at done
    cases done

theorem handleFormat_success {s : Server} (done : handleFormat s = (true, s')) :
    ∃ sectors sent, s.identify = some sectors ∧ formatDataStart sectors.toNat < sectors.toNat ∧
      s' = clusterCacheReset { s with
        sent := sent
        disk := formattedDisk sectors.toNat s.room s.disk
        fs := formatGeometry sectors.toNat
        mounted := true } := by
  unfold handleFormat at done
  cases written : fat32Format s with
  | mk ok =>
    rw [written] at done
    cases ok with
    | false => cases done
    | true =>
      obtain ⟨sectors, sent, known, room, rfl⟩ := fat32Format_success written
      obtain ⟨geometry, parsed, same⟩ := fat32Mount_success done
      have boot := formattedDisk_boot sectors.toNat s.disk room
      rw [show Server.disk _ 0 = _ from boot] at parsed
      obtain ⟨fits, rfl⟩ := formatBoot_parse sectors.toNat_lt parsed
      exact ⟨sectors, sent, known, fits, same⟩

/-! ## The disk afterwards -/

theorem formatFatSectors_eq {total : Nat} (small : total < word32)
    (fits : formatDataStart total < total) :
    formatFatSectors total = (((total - 32) / formatSpc total + 2) * 4 + 511) / 512 := by
  have start := formatDataStart_eq total
  have noWrap : (total + word32 - 32) % word32 = total - 32 := by
    rw [show total + word32 - 32 = total - 32 + word32 by omega, Nat.add_mod_right]
    exact Nat.mod_eq_of_lt (by omega)
  have clusters : (total - 32) / formatSpc total < 2 ^ 29 := by
    unfold formatSpc word32 at *
    split <;> omega
  unfold formatFatSectors formatReserved
  dsimp only
  rw [noWrap]
  generalize (total - 32) / formatSpc total = count at *
  unfold word32 sectorSize
  omega

variable {cluster : Nat}

theorem format_covers {total : Nat} (small : total < word32) (fits : formatDataStart total < total)
    (below : cluster < (formatGeometry total).totalClusters + 2) :
    cluster / 128 < formatFatSectors total := by
  have start := formatDataStart_eq total
  have size := formatFatSectors_eq small fits
  change cluster < (total - formatDataStart total) / formatSpc total + 2 at below
  have fewer : (total - formatDataStart total) / formatSpc total ≤ (total - 32) / formatSpc total :=
    Nat.div_le_div_right (by omega)
  generalize (total - formatDataStart total) / formatSpc total = count at *
  generalize (total - 32) / formatSpc total = estimate at *
  omega

/-- What the first FAT holds after FORMAT: the first 256 sectors are new. -/
def leftInFat (s : Server) (sector : Nat) : Sector :=
  if sector = 0 then formatFatFirst
  else if sector < 256 then zeroSector
  else s.disk (32 + sector)

/-- A disk that has the whole root directory. -/
def RootFits (s : Server) (total : Nat) : Prop :=
  formatDataStart total + formatSpc total ≤ s.room

section

variable {s : Server} {total sector : Nat} (fits : RootFits s total)
include fits

theorem formattedDisk_fat (inside : sector < formatFatSectors total) :
    formattedDisk total s.room s.disk (32 + sector) = leftInFat s sector := by
  have start := formatDataStart_eq total
  unfold RootFits at fits
  unfold formattedDisk leftInFat
  rw [if_neg (by omega), if_neg (by omega)]
  by_cases first : sector = 0
  · rw [if_pos (by omega), if_pos first]
  rw [if_neg (by omega), if_neg (by omega), if_neg first]
  by_cases cleared : sector < 256
  · rw [if_pos (by omega), if_pos cleared]
  · rw [if_neg (by omega), if_neg (by omega), if_neg (by omega),
      if_neg (by omega), if_neg (by omega), if_neg cleared]

theorem formattedDisk_root (inside : sector < formatSpc total) :
    formattedDisk total s.room s.disk (formatDataStart total + sector) = zeroSector := by
  unfold RootFits at fits
  unfold formattedDisk
  rw [if_pos (by omega)]

end

/-! ## The FAT window -/

/-- Where the `i`-th byte of the `k`-th window comes from. -/
def windowByte (s : Server) (k i : Nat) : UInt8 :=
  s.disk (s.fs.fatStartLba + k * fatCacheSectors + i / sectorSize) (i % sectorSize)

/-- Bytes of the `k`-th window. -/
def windowSize (s : Server) (k : Nat) : Nat :=
  min fatCacheSectors (s.fs.fatSizeSectors - k * fatCacheSectors) * sectorSize

/-- A window that is taken for one of the FAT is what the FAT holds on disk. -/
def Current (s : Server) : Prop :=
  ∀ k, s.fatCacheStart = some (s.fs.fatStartLba + k * fatCacheSectors) →
    k * fatCacheSectors < s.fs.fatSizeSectors →
    ∀ i < windowSize s k, s.fatCache i = windowByte s k i

/-- The entry of a cluster in the first FAT on disk. -/
def diskEntry (s : Server) (cluster : Nat) : Nat :=
  getLe 4 (4 * (cluster % 128)) (s.disk (s.fs.fatStartLba + cluster / 128))

theorem fatFlush_clean {s : Server} (clean : s.fatCacheDirty = false) : fatFlush s = s := by
  unfold fatFlush
  split
  · rfl
  · simp [clean]

/-- The server after a load: the window of the cluster is in cache, as it is on
disk, and the rest is as before. -/
structure Loaded (s : Server) (cluster : Nat) (s' : Server) : Prop where
  same : s' = { s with fatCache := s'.fatCache, fatCacheStart := s'.fatCacheStart }
  start : s'.fatCacheStart =
    some (s.fs.fatStartLba + cluster / 128 / fatCacheSectors * fatCacheSectors)
  bytes : ∀ i < windowSize s (cluster / 128 / fatCacheSectors),
    s'.fatCache i = windowByte s (cluster / 128 / fatCacheSectors) i

theorem fatCacheLoad_loaded {s : Server} (current : Current s) (clean : s.fatCacheDirty = false)
    (room : s.fs.fatStartLba + s.fs.fatSizeSectors ≤ s.room)
    (covered : cluster / 128 < s.fs.fatSizeSectors) :
    (fatCacheLoad s cluster).1 = true ∧ Loaded s cluster (fatCacheLoad s cluster).2 := by
  have inside : cluster / 128 / fatCacheSectors * fatCacheSectors < s.fs.fatSizeSectors := by
    unfold fatCacheSectors
    omega
  unfold fatCacheLoad
  dsimp only
  rw [if_neg (by omega)]
  by_cases here : s.fatCacheStart = some (s.fs.fatStartLba +
      cluster / 128 / fatCacheSectors * fatCacheSectors)
  · rw [if_pos here]
    exact ⟨rfl, rfl, here, current _ here inside⟩
  have length : (if s.fs.fatStartLba + cluster / 128 / fatCacheSectors *
      fatCacheSectors + fatCacheSectors > s.fs.fatStartLba + s.fs.fatSizeSectors then
      s.fs.fatStartLba + s.fs.fatSizeSectors - (s.fs.fatStartLba +
        cluster / 128 / fatCacheSectors * fatCacheSectors)
    else fatCacheSectors) = min fatCacheSectors (s.fs.fatSizeSectors -
      cluster / 128 / fatCacheSectors * fatCacheSectors) := by
    split <;> omega
  rw [if_neg here, fatFlush_clean clean, length]
  unfold diskReadSectors
  rw [if_pos (by omega)]
  refine ⟨rfl, rfl, rfl, fun i below => ?_⟩
  exact if_pos below

theorem index_split (cluster : Nat) : indexInCache cluster =
      (cluster / 128 - cluster / 128 / fatCacheSectors * fatCacheSectors) * 128 +
        cluster % 128 := by
  unfold indexInCache fatCacheSectors
  omega

/-- A FAT sector lies in its window. -/
theorem window_near (cluster : Nat) :
    cluster / 128 / fatCacheSectors * fatCacheSectors ≤ cluster / 128 ∧
      cluster / 128 - cluster / 128 / fatCacheSectors * fatCacheSectors < fatCacheSectors := by
  unfold fatCacheSectors
  omega

theorem windowByte_entry {s : Server} {t : Nat} (covered : cluster / 128 < s.fs.fatSizeSectors)
    (byte : t < 4) : 4 * indexInCache cluster + t < windowSize s (cluster / 128 / fatCacheSectors) ∧
      windowByte s (cluster / 128 / fatCacheSectors) (4 * indexInCache cluster + t) =
      s.disk (s.fs.fatStartLba + cluster / 128) (4 * (cluster % 128) + t) := by
  have place := index_split cluster
  obtain ⟨first, near⟩ := window_near cluster
  unfold windowSize windowByte
  generalize cluster / 128 / fatCacheSectors * fatCacheSectors = start at *
  have sector : (4 * indexInCache cluster + t) / sectorSize = cluster / 128 - start := by
    unfold sectorSize
    omega
  have offset : (4 * indexInCache cluster + t) % sectorSize = 4 * (cluster % 128) + t := by
    unfold sectorSize
    omega
  constructor
  · rw [place]
    unfold sectorSize
    omega
  · rw [sector, offset]
    congr 1
    omega

theorem Loaded.entry {s : Server} (loaded : Loaded s cluster s')
    (covered : cluster / 128 < s.fs.fatSizeSectors) :
    getLe 4 (4 * indexInCache cluster) s'.fatCache = diskEntry s cluster := by
  refine getLe_shift fun t byte => ?_
  obtain ⟨inside, same⟩ := windowByte_entry covered byte
  rw [loaded.bytes _ inside, same]

theorem fatRead_current {s : Server} (current : Current s) (clean : s.fatCacheDirty = false)
    (room : s.fs.fatStartLba + s.fs.fatSizeSectors ≤ s.room)
    (covered : cluster / 128 < s.fs.fatSizeSectors) :
    (fatRead s cluster).1 = diskEntry s cluster % fatMask := by
  obtain ⟨ok, loaded⟩ := fatCacheLoad_loaded current clean room covered
  unfold fatRead
  dsimp only
  rw [if_pos ok, loaded.entry covered]

/-! ## Later operations on the FAT -/

/-- What a later write of an entry brings to disk: that entry and nothing that
was cached before, in the one sector of each FAT that holds it. -/
structure Quiet (s : Server) : Prop where
  flush : fatFlush s = s
  elsewhere : ∀ cluster < s.fs.totalClusters + 2, ∀ value sector,
    sector ≠ s.fs.fatStartLba + cluster / 128 →
    sector ≠ s.fs.fatStartLba + cluster / 128 + s.fs.fatSizeSectors →
    (fatFlush (fatWrite s cluster value).2).disk sector = s.disk sector
  beside : ∀ cluster < s.fs.totalClusters + 2, ∀ value, ∀ i < sectorSize, i < 4 * (cluster % 128) ∨
    4 * (cluster % 128) + 4 ≤ i → (fatFlush (fatWrite s cluster value).2).disk
      (s.fs.fatStartLba + cluster / 128) i = s.disk (s.fs.fatStartLba + cluster / 128) i

theorem fatWrite_clean {s : Server} (current : Current s) (clean : s.fatCacheDirty = false)
    (room : s.fs.fatStartLba + s.fs.fatSizeSectors ≤ s.room)
    (covered : cluster / 128 < s.fs.fatSizeSectors) (value : Nat) :
    ∃ loaded cache, Loaded s cluster loaded ∧
      (∀ i, i < 4 * indexInCache cluster ∨ 4 * indexInCache cluster + 4 ≤ i →
        cache i = loaded.fatCache i) ∧ (fatWrite s cluster value).2 = { loaded with
        fatCache := cache
        fatDirtyLo := indexInCache cluster / 128
        fatDirtyHi := indexInCache cluster / 128
        fatCacheDirty := true } := by
  obtain ⟨ok, loaded⟩ := fatCacheLoad_loaded current clean room covered
  have stillClean : (fatCacheLoad s cluster).2.fatCacheDirty = false := by
    rw [loaded.same]
    exact clean
  refine ⟨(fatCacheLoad s cluster).2, putBytes (4 * indexInCache cluster)
    (leBytes 4 (getLe 4 (4 * indexInCache cluster)
      (fatCacheLoad s cluster).2.fatCache / fatMask * fatMask +
        value % fatMask)) (fatCacheLoad s cluster).2.fatCache,
    loaded, fun i apart => putBytes_apart (by simpa using apart) _, ?_⟩
  unfold fatWrite
  dsimp only
  rw [if_pos ok, stillClean]
  rfl

theorem diskWriteSectors_disk (s : Server) (lba count : Nat) (buf : Nat → UInt8) (sector i : Nat) :
    (diskWriteSectors s lba count buf).2.disk sector i = if lba ≤ sector ∧ sector < lba + count ∧
      lba + count ≤ s.room then buf ((sector - lba) * sectorSize + i) else s.disk sector i := by
  unfold diskWriteSectors
  by_cases inside : lba + count ≤ s.room
  · rw [if_pos inside]
    by_cases here : lba ≤ sector ∧ sector < lba + count
    · rw [if_pos ⟨here.1, here.2, inside⟩]
      exact if_pos here
    · rw [if_neg (by omega)]
      exact if_neg here
  · rw [if_neg inside, if_neg (by omega)]

theorem fatFlush_sector {s : Server} {start d : Nat} (window : s.fatCacheStart = some start)
    (dirty : s.fatCacheDirty = true) (low : s.fatDirtyLo = d) (high : s.fatDirtyHi = d)
    (inside : start + d < s.fs.fatStartLba + s.fs.fatSizeSectors) (sector i : Nat) :
    (fatFlush s).disk sector i = if (sector = start + d + s.fs.fatSizeSectors ∧ s.fs.numFats > 1 ∨
          sector = start + d) ∧
          sector < s.room then s.fatCache (d * sectorSize + i) else s.disk sector i := by
  have one : d - d + 1 = 1 := by omega
  unfold fatFlush
  simp only [window, dirty, low, high, if_true, one, if_neg (show ¬ start + d + 1 >
    s.fs.fatStartLba + s.fs.fatSizeSectors by omega)]
  have sameFs : (diskWriteSectors s (start + d) 1 fun i =>
      s.fatCache (d * sectorSize + i)).2.fs = s.fs := by
    unfold diskWriteSectors
    split <;> rfl
  have sameRoom : (diskWriteSectors s (start + d) 1 fun i =>
      s.fatCache (d * sectorSize + i)).2.room = s.room := by
    unfold diskWriteSectors
    split <;> rfl
  by_cases two : s.fs.numFats > 1
  · rw [if_pos (by rw [sameFs]; exact two), sameFs]
    simp only [diskWriteSectors_disk, sameRoom]
    by_cases second : sector = start + d + s.fs.fatSizeSectors ∧ sector < s.room
    · rw [if_pos (by omega), if_pos (by omega), second.1, Nat.sub_self, Nat.zero_mul, Nat.zero_add]
    rw [if_neg (by omega)]
    by_cases primary : sector = start + d ∧ sector < s.room
    · rw [if_pos (by omega), if_pos (by omega), primary.1, Nat.sub_self, Nat.zero_mul, Nat.zero_add]
    · rw [if_neg (by omega), if_neg (by omega)]
  · rw [if_neg (by rw [sameFs]; exact two)]
    simp only [diskWriteSectors_disk]
    by_cases primary : sector = start + d ∧ sector < s.room
    · rw [if_pos (by omega), if_pos (by omega), primary.1, Nat.sub_self, Nat.zero_mul, Nat.zero_add]
    · rw [if_neg (by omega), if_neg (by omega)]

/-- The flush after such a write brings the entry to disk, and beside it what
the disk holds already. -/
theorem quiet_of_current {s : Server} (current : Current s) (clean : s.fatCacheDirty = false)
    (room : s.fs.fatStartLba + s.fs.fatSizeSectors ≤ s.room)
    (covers : ∀ cluster < s.fs.totalClusters + 2, cluster / 128 < s.fs.fatSizeSectors) :
    Quiet s := by
  have stored : ∀ cluster < s.fs.totalClusters + 2, ∀ value,
      ∃ cache : Nat → UInt8, (∀ sector i, (fatFlush (fatWrite s cluster value).2).disk sector i =
        if (sector = s.fs.fatStartLba + cluster / 128 + s.fs.fatSizeSectors ∧
            s.fs.numFats > 1 ∨ sector = s.fs.fatStartLba + cluster / 128) ∧ sector < s.room then
          cache i
        else s.disk sector i) ∧
      ∀ i < sectorSize, i < 4 * (cluster % 128) ∨ 4 * (cluster % 128) + 4 ≤ i →
        cache i = s.disk (s.fs.fatStartLba + cluster / 128) i := by
    intro cluster inside value
    have covered := covers cluster inside
    obtain ⟨loaded, cache, isLoaded, beside, written⟩ :=
      fatWrite_clean current clean room covered value
    obtain ⟨same, start, bytes⟩ := isLoaded
    obtain ⟨first, near⟩ := window_near cluster
    have place := index_split cluster
    unfold windowSize windowByte at bytes
    generalize cluster / 128 / fatCacheSectors * fatCacheSectors = base at *
    have dirtySector : indexInCache cluster / 128 = cluster / 128 - base := by omega
    have lba : s.fs.fatStartLba + base + (cluster / 128 - base) =
        s.fs.fatStartLba + cluster / 128 := by omega
    rw [dirtySector] at written
    have fields : loaded.fs = s.fs ∧ loaded.room = s.room ∧ loaded.disk = s.disk := by
      rw [same]
      exact ⟨rfl, rfl, rfl⟩
    refine ⟨fun i => cache ((cluster / 128 - base) * sectorSize + i),
      fun sector i => ?_, fun i low apart => ?_⟩
    · obtain ⟨isStart, dirty, low, high, sameFs, sameRoom, sameDisk,
        sameCache⟩ : (fatWrite s cluster value).2.fatCacheStart = some (s.fs.fatStartLba + base) ∧
          (fatWrite s cluster value).2.fatCacheDirty = true ∧
          (fatWrite s cluster value).2.fatDirtyLo = cluster / 128 - base ∧
          (fatWrite s cluster value).2.fatDirtyHi = cluster / 128 - base ∧
          (fatWrite s cluster value).2.fs = s.fs ∧
          (fatWrite s cluster value).2.room = s.room ∧ (fatWrite s cluster value).2.disk = s.disk ∧
          (fatWrite s cluster value).2.fatCache = cache := by
        rw [written]
        exact ⟨start, rfl, rfl, rfl, fields.1, fields.2.1, fields.2.2, rfl⟩
      have flushed := fatFlush_sector isStart dirty low high (by rw [sameFs]; omega) sector i
      rw [sameFs, sameRoom, sameDisk, sameCache, lba] at flushed
      exact flushed
    · unfold sectorSize at *
      dsimp only
      rw [beside _ (by omega), bytes _ (by omega),
        show ((cluster / 128 - base) * 512 + i) / 512 = cluster / 128 - base by omega,
        show ((cluster / 128 - base) * 512 + i) % 512 = i by omega, lba]
  refine ⟨fatFlush_clean clean, ?_, ?_⟩
  · intro cluster inside value sector other second
    obtain ⟨cache, disk, _⟩ := stored cluster inside value
    funext i
    rw [disk, if_neg (by tauto)]
  · intro cluster inside value i low apart
    obtain ⟨cache, disk, beside⟩ := stored cluster inside value
    rw [disk]
    split
    · exact beside i low apart
    · rfl

/-! ## FORMAT -/

/-- The mounted volume is empty, and no cache holds anything that is not on its
disk: the root directory is one cluster of zeros, every other cluster is free,
the FAT window is clean and current and no cluster is cached.  Through a file that
was open before no WRITE goes, and the end of one sends nothing to the disk, by
CLOSE or with its owner. -/
structure Emptied (s : Server) : Prop where
  rootEnds : fat32EocMin ≤ (fatRead s s.fs.rootCluster).1
  rootEmpty : ∃ bytes, (readCluster s s.fs.rootCluster).1 = some bytes ∧
    ∀ i < s.fs.sectorsPerCluster * sectorSize, bytes i = 0
  free : ∀ cluster, 2 ≤ cluster → cluster < s.fs.totalClusters + 2 →
    cluster ≠ s.fs.rootCluster → (fatRead s cluster).1 = fat32Free
  clean : s.fatCacheDirty = false
  current : Current s
  noClusters : ∀ slot ∈ s.clusterCache, slot.cluster = 0
  refused : ∀ fd, writeCheck s fd ≠ none
  closed : ∀ fd, (handleClose s fd).sent = s.sent
  orphaned : ∀ fd, (fdReclaim s fd).sent = s.sent

/-- A cluster that lies on the volume FORMAT makes. -/
def Reached (s : Server) (total cluster : Nat) : Prop :=
  2 ≤ cluster ∧ (formatDataStart total + (cluster - 2) * formatSpc total) % word32 +
    formatSpc total ≤ s.room

/-- A file whose entry is still to be updated. -/
def Pending (f : Fat.Fd) : Prop := 2 ≤ f.truncOldChain ∨ f.metaDirty = true

/-- The server before a FORMAT that empties the volume. -/
structure Ready (s : Server) (total : Nat) : Prop where
  rootFits : RootFits s total
  /-- The entries past the first 256 sectors of the FAT are free already. -/
  rest : ∀ cluster, 256 * 128 ≤ cluster → cluster < (formatGeometry total).totalClusters + 2 →
    getLe 4 (4 * (cluster % 128)) (s.disk (32 + cluster / 128)) % fatMask = 0
  clean : s.fatCacheDirty = false
  /-- A cached window that will be taken for one of the new FAT holds what will
  be there. -/
  window : ∀ k, s.fatCacheStart = some (32 + k * fatCacheSectors) →
    k * fatCacheSectors < formatFatSectors total →
    ∀ i < min fatCacheSectors (formatFatSectors total - k * fatCacheSectors) * sectorSize,
      s.fatCache i = leftInFat s (k * fatCacheSectors + i / sectorSize) (i % sectorSize)
  /-- An open file is open for reading only, and where its entry is still to be
  updated that entry is off the new volume. -/
  files : ∀ fd < Fat.maxFds, (s.fds fd).1.used = true → (s.fds fd).1.flags.write = false ∧
      (Pending (s.fds fd).1 → ¬ Reached s total (s.fds fd).1.dirCluster)

theorem formatFatFirst_entry (index : Nat) :
    getLe 4 (4 * index) formatFatFirst = if index = 0 then fat32EocMin
      else if index = 1 ∨ index = 2 then fat32Eoc else 0 := by
  unfold formatFatFirst
  rcases lt_or_ge index 3 with small | large
  · match index, small with
    | 0, _ =>
      simp (disch := simp) only [mul_zero, getLe_putBytes_apart, getLe_putBytes]
      decide
    | 1, _ =>
      simp (disch := simp) only [mul_one, getLe_putBytes_apart, getLe_putBytes]
      decide
    | 2, _ =>
      simp (disch := simp) only [Nat.reduceMul, getLe_putBytes]
      decide
  · rw [getLe_putBytes_apart (by simp; omega), getLe_putBytes_apart (by simp; omega),
      getLe_putBytes_apart (by simp; omega), getLe_zeroSector, if_neg (by omega), if_neg (by omega)]

theorem leftInFat_entry (s : Server) (cluster : Nat) :
    getLe 4 (4 * (cluster % 128)) (leftInFat s (cluster / 128)) = if cluster = 0 then fat32EocMin
      else if cluster = 1 ∨ cluster = 2 then fat32Eoc else if cluster < 256 * 128 then 0
      else getLe 4 (4 * (cluster % 128)) (s.disk (32 + cluster / 128)) := by
  unfold leftInFat
  by_cases first : cluster / 128 = 0
  · rw [if_pos first, formatFatFirst_entry,
      show cluster % 128 = cluster by omega, if_pos (show cluster < 256 * 128 by omega)]
  · rw [if_neg first, if_neg (show ¬ cluster = 0 by omega),
      if_neg (show ¬ (cluster = 1 ∨ cluster = 2) by omega)]
    by_cases cleared : cluster / 128 < 256
    · rw [if_pos cleared, if_pos (by omega), getLe_zeroSector]
    · rw [if_neg cleared, if_neg (by omega)]

section

variable {s : Server} (none : ∀ slot ∈ s.clusterCache, slot.cluster = 0)
include none

theorem readCluster_miss (real : 2 ≤ cluster) : (readCluster s cluster).1 =
      diskReadSectors s (clusterToLba s cluster) s.fs.sectorsPerCluster := by
  have miss : s.clusterCache.findIdx? (·.cluster = cluster) = .none := by
    rw [List.findIdx?_eq_none_iff]
    intro slot member
    rw [none slot member]
    simp only [decide_eq_false_iff_not]
    omega
  unfold readCluster
  rw [if_neg (by omega), miss]
  dsimp only
  split
  · next fails => exact fails.symm
  next bytes read =>
    split <;> exact read.symm

theorem readRoot_zero (root : s.fs.rootCluster = 2) (start : s.fs.dataStartLba < word32) :
    (∃ bytes, (readCluster s s.fs.rootCluster).1 = some bytes ∧
      ∀ i < s.fs.sectorsPerCluster * sectorSize, bytes i = 0) ↔
    s.fs.dataStartLba + s.fs.sectorsPerCluster ≤ s.room ∧ ∀ sector < s.fs.sectorsPerCluster,
      ∀ i < sectorSize, s.disk (s.fs.dataStartLba + sector) i = 0 := by
  rw [root, readCluster_miss none (le_refl 2), diskReadSectors, clusterToLba,
    Nat.sub_self, Nat.zero_mul, Nat.add_zero, Nat.mod_eq_of_lt start]
  constructor
  · rintro ⟨bytes, read, zeros⟩
    obtain ⟨inside, same⟩ := Option.ite_none_right_eq_some.mp read
    cases same
    refine ⟨inside, fun sector low i small => ?_⟩
    have zero := zeros (sector * sectorSize + i) (by
      have next : (sector + 1) * sectorSize ≤
        s.fs.sectorsPerCluster * sectorSize := Nat.mul_le_mul_right _ low
      rw [Nat.succ_mul] at next
      omega)
    unfold sectorSize at zero small
    dsimp only at zero
    rwa [show (sector * 512 + i) / 512 = sector by omega,
      show (sector * 512 + i) % 512 = i by omega] at zero
  · rintro ⟨inside, zeros⟩
    refine ⟨_, if_pos inside, fun i low => ?_⟩
    exact zeros (i / sectorSize) (Nat.div_lt_of_lt_mul (by rwa [mul_comm])) (i % sectorSize)
      (Nat.mod_lt _ (by decide))

end

/-! ## Files left open -/

theorem diskWriteSectors_sent (s : Server) (lba count : Nat) (buf : Nat → UInt8) :
    (diskWriteSectors s lba count buf).2.sent = s.sent + 1 := by
  unfold diskWriteSectors
  split <;> rfl

theorem fatFlush_sent (s : Server) : s.sent ≤ (fatFlush s).sent := by
  have copies : ∀ lba n buf, s.sent ≤ (if (diskWriteSectors s lba n buf).2.fs.numFats > 1 then
        (diskWriteSectors (diskWriteSectors s lba n buf).2
          (lba + (diskWriteSectors s lba n buf).2.fs.fatSizeSectors) n buf).2
      else (diskWriteSectors s lba n buf).2).sent := by
    intro lba n buf
    split <;> simp only [diskWriteSectors_sent] <;> omega
  unfold fatFlush
  split
  · exact le_refl _
  · split
    · exact copies _ _ _
    · exact le_refl _

theorem fatCacheLoad_sent (s : Server) (cluster : Nat) :
    s.sent ≤ (fatCacheLoad s cluster).2.sent := by
  have flushed := fatFlush_sent s
  unfold fatCacheLoad
  dsimp only
  split
  · exact le_refl _
  · split
    · exact le_refl _
    · split <;> exact flushed

theorem fatRead_sent (s : Server) (cluster : Nat) : s.sent ≤ (fatRead s cluster).2.sent := by
  have loaded := fatCacheLoad_sent s cluster
  unfold fatRead
  dsimp only
  split <;> exact loaded

theorem fatWrite_sent (s : Server) (cluster value : Nat) :
    s.sent ≤ (fatWrite s cluster value).2.sent := by
  have loaded := fatCacheLoad_sent s cluster
  unfold fatWrite
  dsimp only
  split
  · split
    · exact loaded
    · split
      · exact loaded
      · split <;> exact loaded
  · exact loaded

theorem freeLoop_sent (fuel : Nat) (s : Server) (cluster : Nat) :
    s.sent ≤ (freeLoop fuel s cluster).sent := by
  induction fuel generalizing s cluster with
  | zero => exact le_refl _
  | succ fuel ih =>
    unfold freeLoop
    split
    · exact ((fatRead_sent s cluster).trans (fatWrite_sent _ cluster fat32Free)).trans (ih _ _)
    · exact le_refl _

/-- A cluster whose sectors the disk has. -/
def OnDisk (s : Server) (cluster : Nat) : Prop :=
  2 ≤ cluster ∧ clusterToLba s cluster + s.fs.sectorsPerCluster ≤ s.room

section

variable {s : Server} (none : ∀ slot ∈ s.clusterCache, slot.cluster = 0)

theorem writeCheck_refused (mounted : s.mounted = true) (fd : Nat) : writeCheck s fd ≠ .none ↔
      (fd < Fat.maxFds → (s.fds fd).1.used = true → (s.fds fd).1.flags.write = false) := by
  unfold writeCheck
  by_cases shut : Fat.maxFds ≤ fd ∨ (s.fds fd).1.used = false
  · rw [if_pos shut]
    refine ⟨fun _ low used => ?_, fun _ => nofun⟩
    rcases shut with high | unused
    · omega
    · simp [unused] at used
  · obtain ⟨low, used⟩ := not_or.mp shut
    rw [if_neg shut]
    by_cases readOnly : (s.fds fd).1.flags.write = false
    · rw [if_pos readOnly]
      exact ⟨fun _ _ _ => readOnly, fun _ => nofun⟩
    · rw [if_neg readOnly, if_neg (by simp [mounted])]
      exact ⟨fun refused => absurd rfl refused,
        fun only => absurd (only (not_le.mp low) (by simpa using used)) readOnly⟩

theorem writeCluster_sent (inside : OnDisk s cluster) (buf : Nat → UInt8) :
    (writeCluster s cluster buf).1 = true ∧ (writeCluster s cluster buf).2.sent = s.sent + 1 := by
  unfold writeCluster diskWriteSectors
  rw [if_neg (by have := inside.1; omega), if_pos inside.2]
  dsimp only
  split <;> exact ⟨rfl, rfl⟩

/-- A read asks for no write and leaves the geometry. -/
theorem readCluster_frame (s : Server) (cluster : Nat) : (readCluster s cluster).2.fs = s.fs ∧
    (readCluster s cluster).2.room = s.room ∧ (readCluster s cluster).2.sent = s.sent := by
  unfold readCluster
  split
  · exact ⟨rfl, rfl, rfl⟩
  · dsimp only
    split
    · exact ⟨rfl, rfl, rfl⟩
    · split
      · exact ⟨rfl, rfl, rfl⟩
      · split <;> exact ⟨rfl, rfl, rfl⟩

include none

/-- The entry of a file is written exactly where its cluster is on the disk. -/
theorem dirUpdateEntry_sent (cluster index size first : Nat) :
    (OnDisk s cluster → (dirUpdateEntry s cluster index size first).1 = true ∧
      (dirUpdateEntry s cluster index size first).2.sent = s.sent + 1) ∧
    (¬ OnDisk s cluster → dirUpdateEntry s cluster index size first = (false, s)) := by
  constructor
  · intro inside
    obtain ⟨fs, room, sent⟩ := readCluster_frame s cluster
    have found := readCluster_miss none inside.1
    rw [diskReadSectors, if_pos inside.2] at found
    unfold dirUpdateEntry
    cases read : readCluster s cluster with
    | mk bytes after =>
      rw [read] at found fs room sent
      cases found
      have still : OnDisk after cluster := by
        unfold OnDisk clusterToLba at *
        rwa [show after.fs = s.fs from fs, show after.room = s.room from room]
      exact sent ▸ writeCluster_sent still _
  · intro outside
    have same : readCluster s cluster = (.none, s) := by
      by_cases real : 2 ≤ cluster
      · have miss : s.clusterCache.findIdx? (·.cluster = cluster) = .none := by
          rw [List.findIdx?_eq_none_iff]
          intro slot member
          rw [none slot member]
          simp only [decide_eq_false_iff_not]
          omega
        unfold readCluster diskReadSectors
        rw [if_neg (by omega), miss, if_neg fun fits => outside ⟨real, fits⟩]
      · exact if_pos (by omega)
    unfold dirUpdateEntry
    rw [same]

variable {fd : Nat} (clean : s.fatCacheDirty = false)
include clean

/-- CLOSE of a file that was only read asks for a write exactly where its entry
is to be updated and is on the disk. -/
theorem handleClose_sent (low : fd < Fat.maxFds) (used : (s.fds fd).1.used = true)
    (flushed : (s.fds fd).1.bufDirty = false) : (handleClose s fd).sent = s.sent ↔
      (Pending (s.fds fd).1 → ¬ OnDisk s (s.fds fd).1.dirCluster) := by
  obtain ⟨on, off⟩ := dirUpdateEntry_sent none (s.fds fd).1.dirCluster
    (s.fds fd).1.dirEntryIndex (s.fds fd).1.fileSize (s.fds fd).1.firstCluster
  have body : (handleClose s fd).sent = (if (closeEntry s (s.fds fd).1 true false).1 then
        fatFlush (closeEntry s (s.fds fd).1 true false).2
      else (closeEntry s (s.fds fd).1 true false).2).sent := by
    unfold handleClose
    simp only [used, flushed, not_le.mpr low, Bool.true_eq_false, or_self, Bool.false_eq_true,
      if_false, Bool.and_false, Bool.false_and]
    rfl
  rw [body]
  unfold closeEntry Pending
  by_cases onDisk : OnDisk s (s.fds fd).1.dirCluster
  · obtain ⟨done, once⟩ := on onDisk
    have more : ∀ t : Server, s.sent + 1 ≤ t.sent → ¬ (fatFlush t).sent = s.sent := by
      intro t least same
      have := fatFlush_sent t
      omega
    by_cases truncated : 2 ≤ (s.fds fd).1.truncOldChain
    · cases update : dirUpdateEntry s (s.fds fd).1.dirCluster (s.fds fd).1.dirEntryIndex
          (s.fds fd).1.fileSize (s.fds fd).1.firstCluster with
      | mk ok after =>
        rw [update] at done once
        cases done
        have freed : s.sent + 1 ≤ (fatFreeChain after (s.fds fd).1.truncOldChain).sent :=
          once ▸ freeLoop_sent _ _ _
        simpa [truncated, onDisk] using more _ freed
    · by_cases dirty : (s.fds fd).1.metaDirty = true
      · simpa [truncated, dirty, onDisk] using more _ (le_of_eq once.symm)
      · simp [truncated, dirty]
  · rw [off onDisk]
    by_cases truncated : 2 ≤ (s.fds fd).1.truncOldChain
    · simp [truncated, onDisk]
    · by_cases dirty : (s.fds fd).1.metaDirty = true
      · simp [truncated, dirty, onDisk, fatFlush_clean clean]
      · simp [truncated, dirty]

/-- The same of a file whose owner has died. -/
theorem fdReclaim_sent (flushed : (s.fds fd).1.bufDirty = false) (off : Pending (s.fds fd).1 →
    ¬ OnDisk s (s.fds fd).1.dirCluster) : (fdReclaim s fd).sent = s.sent := by
  unfold fdReclaim
  dsimp only
  split
  · rfl
  · simp only [flushed, Bool.false_eq_true, if_false]
    split
    · next pending =>
      have dirty : (s.fds fd).1.metaDirty = true := (Bool.and_eq_true_iff.mp pending).1
      rw [(dirUpdateEntry_sent none _ _ _ _).2 (off (Or.inr dirty))]
      rw [fatFlush_clean (s := release s fd (s.fds fd).1) clean]
      rfl
    · rw [fatFlush_clean (s := release s fd (s.fds fd).1) clean]
      rfl

/-- No WRITE goes through an open file and its end sends nothing to the disk,
exactly where it is open for reading only and its entry, if that is still to be
updated, is off the disk. -/
theorem files_silent (mounted : s.mounted = true) : ((∀ fd, writeCheck s fd ≠ .none) ∧
    (∀ fd, (handleClose s fd).sent = s.sent) ∧ ∀ fd, (fdReclaim s fd).sent = s.sent) ↔
    ∀ fd < Fat.maxFds, (s.fds fd).1.used = true → (s.fds fd).1.flags.write = false ∧
      (Pending (s.fds fd).1 → ¬ OnDisk s (s.fds fd).1.dirCluster) := by
  have unstaged : ∀ fd, (s.fds fd).1.flags.write = false → (s.fds fd).1.bufDirty = false := by
    intro fd readOnly
    by_contra dirty
    exact absurd ((s.fds fd).2 (Bool.eq_true_of_not_eq_false dirty)) (by simp [readOnly])
  constructor
  · rintro ⟨refused, closed, _⟩ fd low used
    have readOnly := (writeCheck_refused mounted fd).mp (refused fd) low used
    exact ⟨readOnly, (handleClose_sent none clean low used (unstaged fd readOnly)).mp (closed fd)⟩
  · intro files
    refine ⟨fun fd => (writeCheck_refused mounted fd).mpr fun low used => (files fd low used).1,
      fun fd => ?_, fun fd => ?_⟩
    all_goals
      by_cases shut : Fat.maxFds ≤ fd ∨ (s.fds fd).1.used = false
      · exact congrArg Server.sent (if_pos shut)
      obtain ⟨low, used⟩ := not_or.mp shut
      obtain ⟨readOnly, off⟩ := files fd (not_le.mp low) (by simpa using used)
    · exact (handleClose_sent none clean (not_le.mp low) (by simpa using used)
        (unstaged fd readOnly)).mpr off
    · exact fdReclaim_sent none clean (unstaged fd readOnly) off

end

/-- The server with another disk, mounted. -/
def remounted (s : Server) (disk : Nat → Sector) (geometry : Geometry) :
    Server :=
  clusterCacheReset { s with disk := disk, fs := geometry, mounted := true }

theorem remounted_parts (s : Server) (disk : Nat → Sector) (geometry : Geometry) :
    (remounted s disk geometry).disk = disk ∧
    (remounted s disk geometry).fs = geometry ∧ (remounted s disk geometry).room = s.room ∧
    (remounted s disk geometry).fatCacheStart = s.fatCacheStart ∧
    (remounted s disk geometry).fatCache = s.fatCache ∧
    (remounted s disk geometry).fatCacheDirty = s.fatCacheDirty ∧
    (remounted s disk geometry).fds = s.fds ∧ (remounted s disk geometry).mounted = true :=
  ⟨rfl, rfl, rfl, rfl, rfl, rfl, rfl, rfl⟩

theorem remounted_noClusters (s : Server) (disk : Nat → Sector) (geometry : Geometry) :
    ∀ slot ∈ (remounted s disk geometry).clusterCache, slot.cluster = 0 := by
  intro slot member
  obtain ⟨old, _, rfl⟩ := List.mem_map.mp member
  rfl

/-- The server after a FORMAT of a disk with `total` sectors. -/
def afterFormat (s : Server) (total : Nat) : Server :=
  remounted s (formattedDisk total s.room s.disk) (formatGeometry total)

section AfterFormat

variable {s : Server} {total : Nat}

theorem afterFormat_parts (s : Server) (total : Nat) :
    (afterFormat s total).disk = formattedDisk total s.room s.disk ∧
    (afterFormat s total).fs = formatGeometry total ∧
    (afterFormat s total).room = s.room ∧ (afterFormat s total).fatCacheStart = s.fatCacheStart ∧
    (afterFormat s total).fatCache = s.fatCache ∧
    (afterFormat s total).fatCacheDirty = s.fatCacheDirty ∧
    (afterFormat s total).fds = s.fds ∧ (afterFormat s total).mounted = true :=
  remounted_parts s _ _

theorem formatGeometry_parts (total : Nat) : (formatGeometry total).fatStartLba = 32 ∧
    (formatGeometry total).fatSizeSectors = formatFatSectors total ∧
    (formatGeometry total).rootCluster = 2 ∧
    (formatGeometry total).dataStartLba = formatDataStart total ∧
    (formatGeometry total).sectorsPerCluster = formatSpc total :=
  ⟨rfl, rfl, rfl, rfl, rfl⟩

theorem afterFormat_noClusters : ∀ slot ∈ (afterFormat s total).clusterCache, slot.cluster = 0 :=
  remounted_noClusters s _ _

theorem afterFormat_root : (∃ bytes, (readCluster (afterFormat s total)
        (afterFormat s total).fs.rootCluster).1 = some bytes ∧
      ∀ i < (afterFormat s total).fs.sectorsPerCluster * sectorSize,
        bytes i = 0) ↔ RootFits s total := by
  obtain ⟨disk, fs, room, _⟩ := afterFormat_parts s total
  obtain ⟨_, _, root, start, spc⟩ := formatGeometry_parts total
  have low : formatDataStart total < word32 := Nat.mod_lt _ (by decide)
  rw [readRoot_zero afterFormat_noClusters (by rw [fs, root]) (by rwa [fs, start]), fs, start,
    spc, room, disk]
  refine ⟨And.left, fun fits => ⟨fits, fun sector inside i _ => ?_⟩⟩
  rw [formattedDisk_root fits inside]
  rfl

theorem afterFormat_entry (fits : RootFits s total)
    (covered : cluster / 128 < formatFatSectors total) : diskEntry (afterFormat s total) cluster =
      getLe 4 (4 * (cluster % 128)) (leftInFat s (cluster / 128)) := by
  obtain ⟨disk, fs, _⟩ := afterFormat_parts s total
  rw [diskEntry, disk, fs, (formatGeometry_parts total).1, formattedDisk_fat fits covered]

theorem afterFormat_current (fits : RootFits s total) :
    Current (afterFormat s total) ↔ ∀ k, s.fatCacheStart = some (32 + k * fatCacheSectors) →
        k * fatCacheSectors < formatFatSectors total →
        ∀ i < min fatCacheSectors (formatFatSectors total - k * fatCacheSectors) * sectorSize,
          s.fatCache i = leftInFat s (k * fatCacheSectors + i / sectorSize) (i % sectorSize) := by
  obtain ⟨disk, fs, _, window, cached, _⟩ := afterFormat_parts s total
  have same : ∀ k, k * fatCacheSectors < formatFatSectors total →
        ∀ i < min fatCacheSectors (formatFatSectors total - k * fatCacheSectors) * sectorSize,
        windowByte (afterFormat s total) k i = leftInFat s (k * fatCacheSectors + i / sectorSize)
            (i % sectorSize) := by
    intro k loaded i inside
    have sector : i / sectorSize < min fatCacheSectors
        (formatFatSectors total - k * fatCacheSectors) :=
      Nat.div_lt_of_lt_mul (by rwa [mul_comm])
    rw [windowByte, disk, fs, (formatGeometry_parts total).1, add_assoc,
      formattedDisk_fat fits (by omega)]
  unfold Current windowSize
  rw [window, cached, fs, (formatGeometry_parts total).1, (formatGeometry_parts total).2.1]
  constructor
  · intro current k start loaded i inside
    exact (current k start loaded i inside).trans (same k loaded i inside)
  · intro window k start loaded i inside
    exact (window k start loaded i inside).trans (same k loaded i inside).symm

end AfterFormat

theorem afterFormat_onDisk {s : Server} {total : Nat} (cluster : Nat) :
    OnDisk (afterFormat s total) cluster ↔ Reached s total cluster := by
  obtain ⟨_, fs, room, _⟩ := afterFormat_parts s total
  obtain ⟨_, _, _, start, spc⟩ := formatGeometry_parts total
  rw [OnDisk, clusterToLba, fs, start, spc, room, Reached]

theorem afterFormat_files {s : Server} {total : Nat} (clean : s.fatCacheDirty = false) :
    ((∀ fd, writeCheck (afterFormat s total) fd ≠ none) ∧
      (∀ fd, (handleClose (afterFormat s total) fd).sent = (afterFormat s total).sent) ∧
      ∀ fd, (fdReclaim (afterFormat s total) fd).sent = (afterFormat s total).sent) ↔
    ∀ fd < Fat.maxFds, (s.fds fd).1.used = true → (s.fds fd).1.flags.write = false ∧
      (Pending (s.fds fd).1 → ¬ Reached s total (s.fds fd).1.dirCluster) := by
  obtain ⟨_, _, _, _, _, dirty, files, mounted⟩ := afterFormat_parts s total
  rw [files_silent afterFormat_noClusters (dirty.trans clean) mounted, files]
  simp only [afterFormat_onDisk]

/-- The volume after a FORMAT is empty exactly where the server was ready. -/
theorem afterFormat_emptied {s : Server} {total : Nat} (small : total < word32)
    (room : formatDataStart total < total) : (Ready s total ↔ Emptied (afterFormat s total)) ∧
      (Emptied (afterFormat s total) → Quiet (afterFormat s total)) := by
  have start := formatDataStart_eq total
  obtain ⟨_, fs, sameRoom, _, _, dirty, _⟩ := afterFormat_parts s total
  obtain ⟨fatStart, fatSize, root, _⟩ := formatGeometry_parts total
  have covers : ∀ cluster < (afterFormat s total).fs.totalClusters + 2,
      cluster / 128 < (afterFormat s total).fs.fatSizeSectors := by
    intro cluster below
    exact format_covers small room below
  have fatInside : RootFits s total → (afterFormat s total).fs.fatStartLba +
        (afterFormat s total).fs.fatSizeSectors ≤ (afterFormat s total).room := by
    intro fits
    unfold RootFits at fits
    rw [fs, fatStart, fatSize, sameRoom]
    omega
  have sectorCovered : ∀ {cluster}, cluster / 128 < formatFatSectors total →
      cluster / 128 < (afterFormat s total).fs.fatSizeSectors := by
    intro cluster covered
    exact covered
  have rootCovered : 2 / 128 < formatFatSectors total := by
    rw [formatFatSectors_eq small room]
    generalize (total - 32) / formatSpc total = count
    omega
  refine ⟨⟨fun ready => ?_, fun emptied => ?_⟩, fun emptied => ?_⟩
  · have current := (afterFormat_current ready.rootFits).mpr ready.window
    have clean : (afterFormat s total).fatCacheDirty = false := dirty.trans ready.clean
    have read : ∀ cluster, cluster / 128 < formatFatSectors total →
        (fatRead (afterFormat s total) cluster).1 =
          getLe 4 (4 * (cluster % 128)) (leftInFat s (cluster / 128)) %
            fatMask := by
      intro cluster covered
      rw [fatRead_current current clean (fatInside ready.rootFits)
        (sectorCovered covered), afterFormat_entry ready.rootFits covered]
    obtain ⟨refused, closed, orphaned⟩ := (afterFormat_files ready.clean).mpr ready.files
    refine ⟨?_, afterFormat_root.mpr ready.rootFits, ?_, clean, current,
      afterFormat_noClusters, refused, closed, orphaned⟩
    · rw [fs, root, read 2 rootCovered, leftInFat_entry, if_neg (by omega), if_pos (by omega)]
      decide
    · intro cluster low below other
      have covered := covers cluster below
      rw [read cluster covered, leftInFat_entry, if_neg (by omega),
        if_neg (fun named => named.elim (by omega) other)]
      split
      · rfl
      · rw [fs] at below
        exact ready.rest cluster (by omega) below
  · have fits := afterFormat_root.mp emptied.rootEmpty
    have clean : s.fatCacheDirty = false := dirty ▸ emptied.clean
    refine ⟨fits, fun cluster high below => ?_, clean,
      (afterFormat_current fits).mp emptied.current,
      (afterFormat_files clean).mp ⟨emptied.refused, emptied.closed, emptied.orphaned⟩⟩
    · have covered := format_covers small room below
      have free := emptied.free cluster (by omega) (by rw [fs]; exact below)
        (by rw [fs, root]; omega)
      rw [fatRead_current emptied.current emptied.clean (fatInside fits)
        (sectorCovered covered), afterFormat_entry fits covered,
        leftInFat_entry, if_neg (by omega), if_neg (by omega), if_neg (by omega)] at free
      exact free
  · exact quiet_of_current emptied.current emptied.clean
      (fatInside (afterFormat_root.mp emptied.rootEmpty)) covers

/-- A FORMAT that succeeds leaves an empty volume and nothing of the one before
in memory exactly where the server was ready for it; and later writes to the FAT
then bring nothing else to disk. -/
theorem format_empties (s s' : Server) (sectors : UInt32) (known : s.identify = some sectors)
    (done : handleFormat s = (true, s')) :
    (Ready s sectors.toNat ↔ Emptied s') ∧ (Emptied s' → Quiet s') := by
  obtain ⟨sectors', sent, known', room, after⟩ := handleFormat_success done
  cases known.symm.trans known'
  -- how many writes were asked for before is no part of the condition
  have counted : Ready s sectors.toNat ↔ Ready { s with sent := sent } sectors.toNat :=
    ⟨fun ⟨fits, rest, clean, window, files⟩ => ⟨fits, rest, clean, window, files⟩,
      fun ⟨fits, rest, clean, window, files⟩ => ⟨fits, rest, clean, window, files⟩⟩
  rw [counted, show s' = afterFormat { s with sent := sent } sectors.toNat from after]
  exact afterFormat_emptied sectors.toNat_lt room

/-- A file open for reading, as OPEN leaves it; with `truncOldChain` not 0 it was
opened to be rewritten.  Its entry is in the directory at `dirCluster`. -/
def readingFd (dirCluster truncOldChain : Nat) : OpenFile :=
  ⟨{ Fat.Fd.zero with
    used := true
    flags := ⟨true, false, false, false, truncOldChain != 0⟩
    dirCluster := dirCluster
    metaDirty := truncOldChain != 0
    truncOldChain := truncOldChain }, fun dirty => nomatch dirty⟩

/-- A server over a disk of `total` sectors full of `old` bytes; it has the
window from sector 32 on in cache, with the first entries `cached`, or none.
File 3 is open to be read, and file 4, whose entry is in the directory at
`dirCluster`, to be rewritten. -/
def used (total : UInt32) (old : UInt8) (cached : Option (List UInt8)) (dirCluster : Nat) :
    Server where
  disk := fun _ _ => old
  room := total.toNat
  sent := 0
  identify := some total
  fs := ⟨8, 32, 2, 2, 2, 2048, 36, 251⟩
  mounted := true
  fatCache := putBytes 0 (cached.getD []) zeroSector
  fatCacheStart := cached.map fun _ => 32
  fatCacheDirty := false
  fatDirtyLo := 0
  fatDirtyHi := 0
  clusterCache := [⟨2, 1, zeroSector⟩, ⟨0, 0, zeroSector⟩, ⟨0, 0, zeroSector⟩]
  clusterCacheClock := 1
  nextFreeHint := 100
  fds := Function.update (Function.update (fun _ => unusedFd) 3 (readingFd 2 0)) 4
    (readingFd dirCluster 9)

theorem used_files (total : UInt32) (old : UInt8) (cached : Option (List UInt8))
    {dirCluster : Nat} (off : ¬ Reached (used total old cached dirCluster) total.toNat dirCluster) :
    ∀ fd < Fat.maxFds, ((used total old cached dirCluster).fds fd).1.used = true →
      ((used total old cached dirCluster).fds fd).1.flags.write = false ∧
        (Pending ((used total old cached dirCluster).fds fd).1 →
          ¬ Reached (used total old cached dirCluster) total.toNat
            ((used total old cached dirCluster).fds fd).1.dirCluster) := by
  intro fd _ isUsed
  by_cases third : fd = 3
  · subst third
    have unused : ¬ Pending (readingFd 2 0).1 := by simp [Pending, readingFd, Fat.Fd.zero]
    exact ⟨rfl, fun pending => absurd pending unused⟩
  by_cases fourth : fd = 4
  · subst fourth
    exact ⟨rfl, fun _ => off⟩
  · have empty : (used total old cached dirCluster).fds fd = unusedFd := by
      unfold used
      dsimp only
      rw [Function.update_of_ne fourth, Function.update_of_ne third]
    rw [empty] at isUsed
    cases isUsed

/-- A disk of one megabyte, formatted before its FAT was ever read, with two files
of the old volume open, the second from a directory far out on a larger disk. -/
theorem format_empties_small :
    ∃ s', handleFormat (used 2048 0xFF none 70000) = (true, s') ∧ Emptied s' ∧ Quiet s' := by
  have done : (handleFormat (used 2048 0xFF none 70000)).1 = true := by decide +kernel
  have ready : Ready (used 2048 0xFF none 70000) (2048 : UInt32).toNat := by
    refine ⟨by unfold RootFits; decide +kernel, fun cluster high below => ?_,
      rfl, fun k start => ?_, used_files 2048 0xFF none ?_⟩
    · have few : (formatGeometry (2048 : UInt32).toNat).totalClusters = 251 := by decide +kernel
      rw [few] at below
      omega
    · cases start
    · unfold Reached
      decide +kernel
  have result := format_empties _ (handleFormat (used 2048 0xFF none 70000)).2 2048
    rfl (Prod.ext done rfl)
  exact ⟨_, Prod.ext done rfl, result.1.mp ready, result.2 (result.1.mp ready)⟩

/-- A volume whose FAT was read before: the old window answers for the new FAT.
A disk of 146 megabytes: past 256 sectors the old FAT is still there.  And a file
that was to be rewritten: its CLOSE writes to the new root directory. -/
theorem format_empties_reused : (∃ s', handleFormat (used 2048 0 (some (List.replicate 16 5)) 2) =
        (true, s') ∧ (fatRead s' 3).1 = 0x05050505 ∧ ¬ Emptied s') ∧
    (∃ s', handleFormat (used 300000 0xFF none 2) = (true, s') ∧
      (fatRead s' 33000).1 = 0x0FFFFFFF ∧ ¬ Emptied s') ∧ ∃ s', handleFormat
    (used 2048 0xFF none 2) = (true, s') ∧ s'.sent < (handleClose s' 4).sent ∧ ¬ Emptied s' := by
  -- a FORMAT that succeeds and leaves an entry that is not free
  have stale : ∀ (s : Server) (cluster value : Nat),
      ((handleFormat s).1 = true ∧ (fatRead (handleFormat s).2 cluster).1 = value ∧
        cluster < (handleFormat s).2.fs.totalClusters + 2 ∧
        (handleFormat s).2.fs.rootCluster = 2) → 2 < cluster → value ≠ 0 →
      ∃ s', handleFormat s = (true, s') ∧ (fatRead s' cluster).1 = value ∧ ¬ Emptied s' := by
    rintro s cluster value ⟨done, read, below, root⟩ other nonzero
    refine ⟨(handleFormat s).2, Prod.ext done rfl, read, fun emptied => ?_⟩
    have free := emptied.free cluster (by omega) below (by rw [root]; omega)
    exact nonzero (read.symm.trans free)
  obtain ⟨done, more⟩ : (handleFormat (used 2048 0xFF none 2)).1 = true ∧
      (handleFormat (used 2048 0xFF none 2)).2.sent <
        (handleClose (handleFormat (used 2048 0xFF none 2)).2 4).sent := by decide +kernel
  exact ⟨stale _ 3 0x05050505 (by decide +kernel) (by decide) (by decide),
    stale _ 33000 0x0FFFFFFF (by decide +kernel) (by decide) (by decide),
    _, Prod.ext done rfl, more, fun emptied => absurd (emptied.closed 4) (ne_of_gt more)⟩

end MainDob.Proofs.Format
