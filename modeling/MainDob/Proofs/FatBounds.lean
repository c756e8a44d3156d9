/-
Purpose: The FAT window of the server over mounts of any boot sector. A run whose reads and writes
  stay off the clusters that have a window but no entry, and whose mounts leave no window of
  another volume behind, reads what the FAT holds and writes nothing but the FAT copies.
Trusted boundary: a transfer inside the disk succeeds and one that ends past it
  fails; what else the server writes to the disk is not part of these runs.
Main exports: Gap, Op, fat_bounds
-/
import MainDob.Proofs.Format

namespace MainDob.Proofs.FatBounds

open Lib.Bytes Fs.Format Proofs.Format
open Fs hiding fatFlush fatCacheLoad fatRead fatWrite

/-! ### The operations -/

/-- `fs` before a mount. -/
def noGeometry : Geometry := ⟨0, 0, 0, 0, 0, 0, 0, 0⟩

/-- REMOUNT: `fs` and the files are cleared, and what is on the disk now is
mounted. -/
def remount (s : Server) (disk : Nat → Sector) (room : Nat) : Server :=
  (fat32Mount { s with
    disk := disk
    room := room
    fs := noGeometry
    mounted := false
    fds := fun _ => unusedFd }).2

inductive Op where
  | mount (disk : Nat → Sector) (room : Nat)
  | read (cluster : Nat)
  | write (cluster value : Nat)
  | flush

def apply (s : Server) : Op → Server
  | .mount disk room => remount s disk room
  | .read cluster => (fatRead s cluster).2
  | .write cluster value => (fatWrite s cluster value).2
  | .flush => fatFlush s

/-- The entries the FAT is meant to hold: those on disk at the mount, and the
writes since. -/
def note (s : Server) (table : Nat → Nat) : Op → Nat → Nat
  | .mount disk room => fun cluster =>
    diskEntry (remount s disk room) cluster % fatMask
  | .write cluster value =>
    if (fatWrite s cluster value).1 then
      fun other => if other = cluster then value % fatMask else table other
    else table
  | _ => table

/-! ### The conditions -/

/-- The cluster lies past the end of the FAT, in its last window. -/
def Gap (fs : Geometry) (cluster : Nat) : Prop :=
  fs.fatSizeSectors ≤ cluster / 128 ∧
    cluster / 128 / fatCacheSectors * fatCacheSectors < fs.fatSizeSectors

/-- The window in cache is clean, and where the new volume takes it for one of
its own it holds what is on the new disk. -/
def Retains (s : Server) (disk : Nat → Sector) (room : Nat) : Prop :=
  s.fatCacheDirty = false ∧ ∀ fs, fat32Parse (disk 0) = some fs → ∀ k, s.fatCacheStart = some
      (fs.fatStartLba + k * fatCacheSectors) → k * fatCacheSectors < fs.fatSizeSectors →
        fs.fatStartLba + fs.fatSizeSectors ≤ room ∧ ∀ i < min fatCacheSectors
        (fs.fatSizeSectors - k * fatCacheSectors) * sectorSize, s.fatCache i = disk
          (fs.fatStartLba + k * fatCacheSectors + i / sectorSize) (i % sectorSize)

def Guard (s : Server) : Op → Prop
  | .mount disk room => Retains s disk room
  | .read cluster => ¬ Gap s.fs cluster
  | .write cluster _ => ¬ Gap s.fs cluster
  | .flush => True

def Guarded : Server → List Op → Prop
  | _, [] => True
  | s, op :: ops => Guard s op ∧ Guarded (apply s op) ops

/-! ### What every step does -/

/-- The sector belongs to a copy of the FAT. -/
def InFats (fs : Geometry) (sector : Nat) : Prop :=
  fs.fatStartLba ≤ sector ∧ sector < fs.fatStartLba + fs.fatSizeSectors ∨ fs.numFats > 1 ∧
    fs.fatStartLba + fs.fatSizeSectors ≤ sector ∧ sector < fs.fatStartLba + 2 * fs.fatSizeSectors

/-- Only sectors of the FAT copies have other bytes. -/
def Confined (s s' : Server) : Prop :=
  ∀ sector, ¬ InFats s.fs sector → s'.disk sector = s.disk sector

/-- A read returns the entry of a cluster that has one, or an end mark; nothing
but a mount brings other bytes to a sector outside the FAT copies. -/
def GoodStep (s : Server) (table : Nat → Nat) : Op → Prop
  | .mount _ _ => True
  | .read cluster =>
    (cluster / 128 < s.fs.fatSizeSectors ∧ (fatRead s cluster).1 = table cluster ∨
      fat32EocMin ≤ (fatRead s cluster).1) ∧ Confined s (fatRead s cluster).2
  | .write cluster value => Confined s (fatWrite s cluster value).2
  | .flush => Confined s (fatFlush s)

def GoodRun : Server → (Nat → Nat) → List Op → Prop
  | _, _, [] => True
  | s, table, op :: ops =>
    GoodStep s table op ∧ GoodRun (apply s op) (note s table op) ops

/-! ### The invariant -/

/-- The entry of a cluster, in cache where its window is. -/
def entryOf (s : Server) (cluster : Nat) : Nat :=
  if s.fatCacheStart = some (s.fs.fatStartLba +
      cluster / 128 / fatCacheSectors * fatCacheSectors) then
    getLe 4 (4 * indexInCache cluster) s.fatCache
  else diskEntry s cluster

/-- The window in cache, if it is one of the volume, and the disk hold the
entries; outside the dirty range the two agree. -/
structure Mirrors (s : Server) (table : Nat → Nat) : Prop where
  dirty : s.fatCacheDirty = true → ∃ k,
    s.fatCacheStart = some (s.fs.fatStartLba + k * fatCacheSectors) ∧ s.fatDirtyLo ≤ s.fatDirtyHi ∧
      s.fatDirtyHi < fatCacheSectors ∧ k * fatCacheSectors + s.fatDirtyHi < s.fs.fatSizeSectors
  room : ∀ k, s.fatCacheStart = some (s.fs.fatStartLba + k * fatCacheSectors) →
    k * fatCacheSectors < s.fs.fatSizeSectors →
    s.fs.fatStartLba + k * fatCacheSectors + min fatCacheSectors
      (s.fs.fatSizeSectors - k * fatCacheSectors) ≤ s.room
  window : ∀ k, s.fatCacheStart = some (s.fs.fatStartLba + k * fatCacheSectors) →
    k * fatCacheSectors < s.fs.fatSizeSectors → ∀ i < windowSize s k,
    (s.fatCacheDirty = true → i / sectorSize < s.fatDirtyLo ∨ s.fatDirtyHi < i / sectorSize) →
    s.fatCache i = windowByte s k i
  entries : ∀ cluster, cluster / 128 < s.fs.fatSizeSectors →
    table cluster = entryOf s cluster % fatMask

/-- The server after an operation on the window: the volume is the same, and
only the FAT copies have changed on disk. -/
structure Steady (s s' : Server) : Prop where
  fs : s'.fs = s.fs
  room : s'.room = s.room
  confined : Confined s s'

theorem Steady.refl (s : Server) : Steady s s := ⟨rfl, rfl, fun _ _ => rfl⟩

/-! ### The flush -/

variable {s : Server}

theorem fatFlush_range {start : Nat} (loaded : s.fatCacheStart = some start)
    (dirty : s.fatCacheDirty = true) (order : s.fatDirtyLo ≤ s.fatDirtyHi)
    (inside : start + s.fatDirtyHi < s.fs.fatStartLba + s.fs.fatSizeSectors) :
    ∃ disk sent, fatFlush s = { s with disk := disk, sent := sent, fatCacheDirty := false } ∧
      ∀ sector i, disk sector i =
        if s.fs.numFats > 1 ∧ start + s.fatDirtyLo + s.fs.fatSizeSectors ≤ sector ∧
            sector ≤ start + s.fatDirtyHi + s.fs.fatSizeSectors ∧
            start + s.fatDirtyHi + s.fs.fatSizeSectors < s.room then
          s.fatCache ((sector - s.fs.fatSizeSectors - start) * sectorSize + i)
        else if start + s.fatDirtyLo ≤ sector ∧ sector ≤ start + s.fatDirtyHi ∧
            start + s.fatDirtyHi < s.room then
          s.fatCache ((sector - start) * sectorSize + i)
        else s.disk sector i := by
  have whole : ¬ start + s.fatDirtyLo + (s.fatDirtyHi - s.fatDirtyLo + 1) >
      s.fs.fatStartLba + s.fs.fatSizeSectors := by omega
  have same : ∀ (t : Server) lba n buf, (diskWriteSectors t lba n buf).2 = { t with
          disk := (diskWriteSectors t lba n buf).2.disk
          sent := t.sent + 1 } := by
    intro t lba n buf
    unfold diskWriteSectors
    split <;> rfl
  have placed : ∀ {sector first : Nat}, first + s.fatDirtyLo ≤ sector → ∀ i,
      s.fatDirtyLo * sectorSize + ((sector - (first + s.fatDirtyLo)) * sectorSize +
        i) = (sector - first) * sectorSize + i := by
    intro sector first low i
    have place : sector - first = s.fatDirtyLo + (sector - (first + s.fatDirtyLo)) := by omega
    rw [place, add_mul, add_assoc]
  unfold fatFlush
  split
  · next none' =>
      rw [loaded] at none'
      cases none'
  next start' loaded' =>
    obtain rfl := Option.some.inj (loaded.symm.trans loaded')
    rw [if_pos dirty]
    dsimp only
    rw [if_neg whole, same s]
    by_cases two : s.fs.numFats > 1
    · rw [if_pos two, same]
      refine ⟨_, _, rfl, fun sector i => ?_⟩
      rw [diskWriteSectors_disk]
      dsimp only
      rw [diskWriteSectors_disk]
      by_cases second : start + s.fatDirtyLo + s.fs.fatSizeSectors ≤ sector ∧
          sector ≤ start + s.fatDirtyHi + s.fs.fatSizeSectors ∧
          start + s.fatDirtyHi + s.fs.fatSizeSectors < s.room
      · have behind : sector - (start + s.fatDirtyLo + s.fs.fatSizeSectors) =
            sector - s.fs.fatSizeSectors - (start + s.fatDirtyLo) := by omega
        rw [if_pos (by omega), if_pos ⟨two, second⟩, behind, placed (by omega)]
      have skip : ¬ (s.fs.numFats > 1 ∧ start + s.fatDirtyLo + s.fs.fatSizeSectors ≤ sector ∧
          sector ≤ start + s.fatDirtyHi + s.fs.fatSizeSectors ∧
          start + s.fatDirtyHi + s.fs.fatSizeSectors < s.room) :=
        fun both => second both.2
      rw [if_neg (by omega), if_neg skip]
      by_cases first : start + s.fatDirtyLo ≤ sector ∧
          sector ≤ start + s.fatDirtyHi ∧ start + s.fatDirtyHi < s.room
      · rw [if_pos (by omega), if_pos first, placed first.1]
      · rw [if_neg (by omega), if_neg first]
    · rw [if_neg two]
      refine ⟨_, _, rfl, fun sector i => ?_⟩
      have skip : ¬ (s.fs.numFats > 1 ∧ start + s.fatDirtyLo + s.fs.fatSizeSectors ≤ sector ∧
          sector ≤ start + s.fatDirtyHi + s.fs.fatSizeSectors ∧
          start + s.fatDirtyHi + s.fs.fatSizeSectors < s.room) :=
        fun both => two both.1
      rw [diskWriteSectors_disk, if_neg skip]
      by_cases first : start + s.fatDirtyLo ≤ sector ∧
          sector ≤ start + s.fatDirtyHi ∧ start + s.fatDirtyHi < s.room
      · rw [if_pos (by omega), if_pos first, placed first.1]
      · rw [if_neg (by omega), if_neg first]

theorem window_unique {k k' : Nat}
    (loaded : s.fatCacheStart = some (s.fs.fatStartLba + k * fatCacheSectors))
    (also : s.fatCacheStart = some (s.fs.fatStartLba + k' * fatCacheSectors)) : k' = k := by
  have same := Option.some.inj (loaded.symm.trans also)
  unfold fatCacheSectors at same
  omega

variable {table : Nat → Nat}

theorem Mirrors.flush (mirrors : Mirrors s table) :
    Mirrors (fatFlush s) table ∧ Steady s (fatFlush s) ∧
    (fatFlush s).fatCacheDirty = false ∧ (fatFlush s).fatCacheStart = s.fatCacheStart := by
  cases dirty : s.fatCacheDirty with
  | false =>
    rw [fatFlush_clean dirty]
    exact ⟨mirrors, Steady.refl s, dirty, rfl⟩
  | true =>
    obtain ⟨k, loaded, order, small, inside⟩ := mirrors.dirty dirty
    have proper : k * fatCacheSectors < s.fs.fatSizeSectors := by omega
    have room := mirrors.room k loaded proper
    obtain ⟨disk, sent, flushed, bytes⟩ := fatFlush_range loaded dirty order (by omega)
    have first : ∀ sector i, sector < s.fs.fatStartLba + s.fs.fatSizeSectors → disk sector i =
          if s.fs.fatStartLba + k * fatCacheSectors + s.fatDirtyLo ≤ sector ∧
              sector ≤ s.fs.fatStartLba + k * fatCacheSectors + s.fatDirtyHi then
            s.fatCache ((sector - (s.fs.fatStartLba + k * fatCacheSectors)) * sectorSize + i)
          else s.disk sector i := by
      intro sector i below
      rw [bytes, if_neg (by omega)]
      by_cases within : s.fs.fatStartLba + k * fatCacheSectors + s.fatDirtyLo ≤
          sector ∧ sector ≤ s.fs.fatStartLba + k * fatCacheSectors + s.fatDirtyHi
      · rw [if_pos (by omega), if_pos within]
      · rw [if_neg (by omega), if_neg within]
    rw [flushed]
    refine ⟨⟨fun impossible => absurd impossible Bool.false_ne_true, mirrors.room,
      ?_, ?_⟩, ⟨rfl, rfl, ?_⟩, rfl, rfl⟩
    · intro k' loaded' _ i below _
      obtain rfl := window_unique loaded loaded'
      have split : i / sectorSize * sectorSize + i % sectorSize = i := Nat.div_add_mod' i sectorSize
      have within : i / sectorSize <
          min fatCacheSectors (s.fs.fatSizeSectors - k' * fatCacheSectors) :=
        (Nat.div_lt_iff_lt_mul (by decide)).mpr below
      change s.fatCache i = disk (s.fs.fatStartLba + k' * fatCacheSectors +
        i / sectorSize) (i % sectorSize)
      rw [first _ _ (by omega)]
      split
      · rw [Nat.add_sub_cancel_left, split]
      · exact mirrors.window k' loaded proper i below (fun _ => by omega)
    · intro cluster covered
      rw [mirrors.entries cluster covered]
      unfold entryOf
      split
      · rfl
      next elsewhere =>
        congr 1
        refine getLe_congr fun i _ _ => ?_
        dsimp only
        rw [first _ _ (Nat.add_lt_add_left covered _), if_neg]
        rintro ⟨low, high⟩
        apply elsewhere
        have same : cluster / 128 / fatCacheSectors = k := by
          unfold fatCacheSectors at small low high ⊢
          omega
        rw [same, loaded]
    · intro sector outside
      funext i
      unfold InFats at outside
      dsimp only
      rw [bytes, if_neg (by omega), if_neg (by omega)]

variable {cluster : Nat}

section

variable (mirrors : Mirrors s table)
include mirrors

theorem Mirrors.clean (clean : s.fatCacheDirty = false)
    (covered : cluster / 128 < s.fs.fatSizeSectors) : entryOf s cluster = diskEntry s cluster := by
  unfold entryOf
  split
  · next own =>
      refine getLe_shift fun t byte => ?_
      obtain ⟨inside, same⟩ := windowByte_entry covered byte
      have proper : cluster / 128 / fatCacheSectors * fatCacheSectors < s.fs.fatSizeSectors :=
        lt_of_le_of_lt (Nat.div_mul_le_self _ _) covered
      rw [mirrors.window _ own proper _ inside
        (fun impossible => absurd (clean.symm.trans impossible) Bool.false_ne_true), same]
  · rfl

theorem Mirrors.load (proper : ¬ Gap s.fs cluster) : Mirrors (fatCacheLoad s cluster).2 table ∧
    Steady s (fatCacheLoad s cluster).2 ∧ ((fatCacheLoad s cluster).1 = true →
      cluster / 128 < s.fs.fatSizeSectors ∧ (fatCacheLoad s cluster).2.fatCacheStart = some
        (s.fs.fatStartLba + cluster / 128 / fatCacheSectors * fatCacheSectors)) := by
  unfold fatCacheLoad
  dsimp only
  split
  · exact ⟨mirrors, Steady.refl s, nofun⟩
  next inside =>
    have window : cluster / 128 / fatCacheSectors * fatCacheSectors <
        s.fs.fatSizeSectors := by omega
    have covered : cluster / 128 < s.fs.fatSizeSectors := by
      refine Nat.lt_of_not_le fun past => ?_
      exact proper ⟨past, window⟩
    split
    · next here => exact ⟨mirrors, Steady.refl s, fun _ => ⟨covered, here⟩⟩
    obtain ⟨flushed, steady, clean, _⟩ := mirrors.flush
    generalize fatFlush s = t at *
    generalize base : cluster / 128 / fatCacheSectors = k at *
    have length : (if s.fs.fatStartLba + k * fatCacheSectors + fatCacheSectors >
          s.fs.fatStartLba + s.fs.fatSizeSectors then
        s.fs.fatStartLba + s.fs.fatSizeSectors - (s.fs.fatStartLba + k * fatCacheSectors)
        else fatCacheSectors) =
        min fatCacheSectors (t.fs.fatSizeSectors - k * fatCacheSectors) := by
      rw [steady.fs]
      split <;> omega
    rw [length]
    unfold diskReadSectors
    split
    · next unread => exact ⟨flushed, steady, nofun⟩
    next bytes read =>
      split at read
      · next within =>
          cases read
          refine ⟨⟨?_, ?_, ?_, ?_⟩, { steady with }, fun _ => ⟨covered, rfl⟩⟩
          · intro impossible
            exact absurd (clean.symm.trans impossible) Bool.false_ne_true
          · intro k' loaded _
            rw [steady.fs] at loaded ⊢
            have same := Option.some.inj loaded
            unfold fatCacheSectors at same
            obtain rfl : k' = k := by omega
            rw [steady.fs] at within
            exact within
          · intro k' loaded _ i below _
            dsimp only at loaded ⊢
            rw [steady.fs] at loaded
            have same := Option.some.inj loaded
            unfold fatCacheSectors at same
            obtain rfl : k' = k := by omega
            unfold windowSize at below
            unfold windowByte
            rw [if_pos below, steady.fs]
          intro other inside'
          rw [flushed.entries other inside', flushed.clean clean inside']
          unfold entryOf
          dsimp only
          split
          · next own =>
              refine congrArg (· % fatMask) (getLe_shift fun b byte => ?_).symm
              obtain ⟨below, same⟩ := windowByte_entry inside' byte
              rw [steady.fs] at own
              have equal := Option.some.inj own
              unfold fatCacheSectors at equal
              have window' : other / 128 / fatCacheSectors = k := by
                unfold fatCacheSectors
                omega
              rw [window'] at below same
              unfold windowSize at below
              rw [if_pos below, ← same]
              unfold windowByte
              rw [steady.fs]
          · rfl
      · cases read

/-! ### Reads and writes -/

theorem Mirrors.read (proper : ¬ Gap s.fs cluster) : Mirrors (fatRead s cluster).2 table ∧
    Steady s (fatRead s cluster).2 ∧ (cluster / 128 < s.fs.fatSizeSectors ∧
      (fatRead s cluster).1 = table cluster ∨ fat32EocMin ≤ (fatRead s cluster).1) := by
  obtain ⟨kept, steady, loaded⟩ := mirrors.load proper
  unfold fatRead
  dsimp only
  split
  · next ok =>
      obtain ⟨covered, here⟩ := loaded ok
      refine ⟨kept, steady, Or.inl ⟨covered, ?_⟩⟩
      rw [kept.entries cluster (by rw [steady.fs]; exact covered)]
      unfold entryOf
      rw [if_pos (by rw [steady.fs]; exact here)]
  · have ended : fat32EocMin ≤ fat32Eoc := by decide
    exact ⟨kept, steady, Or.inr ended⟩

end

/-- The dirty range of a window after the write of an entry in `sector`. -/
structure Stretched (s : Server) (sector lo hi : Nat) : Prop where
  low : lo ≤ sector
  high : sector ≤ hi
  old : s.fatCacheDirty = true → lo ≤ s.fatDirtyLo ∧ s.fatDirtyHi ≤ hi
  bound : hi = sector ∨ s.fatCacheDirty = true ∧ hi = s.fatDirtyHi

theorem fatWrite_ok (value : Nat) (ok : (fatCacheLoad s cluster).1 = true)
    (order : (fatCacheLoad s cluster).2.fatCacheDirty = true →
      (fatCacheLoad s cluster).2.fatDirtyLo ≤ (fatCacheLoad s cluster).2.fatDirtyHi) :
    ∃ lo hi, Stretched (fatCacheLoad s cluster).2 (indexInCache cluster / 128) lo hi ∧
      fatWrite s cluster value = (true, { (fatCacheLoad s cluster).2 with
        fatCache := putBytes (4 * indexInCache cluster)
          (leBytes 4 (getLe 4 (4 * indexInCache cluster)
            (fatCacheLoad s cluster).2.fatCache / fatMask * fatMask +
              value % fatMask)) (fatCacheLoad s cluster).2.fatCache
        fatDirtyLo := lo
        fatDirtyHi := hi
        fatCacheDirty := true }) := by
  unfold fatWrite
  dsimp only
  rw [if_pos ok]
  generalize (fatCacheLoad s cluster).2 = t at order ⊢
  generalize indexInCache cluster / 128 = sector
  cases dirty : t.fatCacheDirty with
  | false =>
    exact ⟨sector, sector, ⟨le_refl _, le_refl _,
      fun impossible => absurd (dirty.symm.trans impossible) Bool.false_ne_true, Or.inl rfl⟩, rfl⟩
  | true =>
    have ordered := order dirty
    by_cases below : sector < t.fatDirtyLo
    · rw [if_pos below]
      exact ⟨sector, t.fatDirtyHi, ⟨le_refl _, by omega,
        fun _ => ⟨by omega, le_refl _⟩, Or.inr ⟨dirty, rfl⟩⟩, rfl⟩
    rw [if_neg below]
    by_cases above : sector > t.fatDirtyHi
    · rw [if_pos above]
      exact ⟨t.fatDirtyLo, sector, ⟨by omega, le_refl _,
        fun _ => ⟨le_refl _, by omega⟩, Or.inl rfl⟩, rfl⟩
    · rw [if_neg above]
      exact ⟨t.fatDirtyLo, t.fatDirtyHi, ⟨by omega, by omega,
        fun _ => ⟨le_refl _, le_refl _⟩, Or.inr ⟨dirty, rfl⟩⟩, rfl⟩

theorem index_apart {other : Nat} (different : other ≠ cluster)
    (same : other / 128 / fatCacheSectors = cluster / 128 / fatCacheSectors) :
    indexInCache other ≠ indexInCache cluster := by
  unfold indexInCache fatCacheSectors at *
  omega

theorem entry_value (old value : Nat) :
    (old / fatMask * fatMask + value % fatMask) % 256 ^ 4 % fatMask = value % fatMask := by
  have divides : fatMask ∣ 256 ^ 4 := ⟨16, rfl⟩
  rw [Nat.mod_mod_of_dvd _ divides, Nat.mul_add_mod', Nat.mod_mod]

theorem Mirrors.write (mirrors : Mirrors s table) (proper : ¬ Gap s.fs cluster) (value : Nat) :
    Mirrors (fatWrite s cluster value).2 (note s table (.write cluster value)) ∧
      Steady s (fatWrite s cluster value).2 := by
  obtain ⟨kept, steady, loaded⟩ := mirrors.load proper
  dsimp only [note]
  by_cases ok : (fatCacheLoad s cluster).1 = true
  · obtain ⟨covered, here⟩ := loaded ok
    have order : (fatCacheLoad s cluster).2.fatCacheDirty = true →
        (fatCacheLoad s cluster).2.fatDirtyLo ≤ (fatCacheLoad s cluster).2.fatDirtyHi := by
      intro dirty
      obtain ⟨_, _, order, _⟩ := kept.dirty dirty
      exact order
    obtain ⟨lo, hi, stretched, written⟩ := fatWrite_ok value ok order
    rw [written]
    rw [if_pos rfl]
    rw [← steady.fs] at covered here
    obtain ⟨sameFs, sameRoom, confined⟩ := steady
    generalize (fatCacheLoad s cluster).2 = t at *
    have place := index_split cluster
    have sector : cluster / 128 / fatCacheSectors * fatCacheSectors +
        indexInCache cluster / 128 = cluster / 128 ∧
        indexInCache cluster / 128 < fatCacheSectors := by
      rw [place]
      unfold fatCacheSectors
      omega
    refine ⟨⟨?_, kept.room, ?_, ?_⟩, ⟨sameFs, sameRoom, confined⟩⟩
    · intro _
      refine ⟨_, here, le_trans stretched.low stretched.high, ?_⟩
      dsimp only
      rcases stretched.bound with same | ⟨dirty, same⟩
      · omega
      obtain ⟨k, loaded', _, small, inside⟩ := kept.dirty dirty
      have unique := window_unique here loaded'
      subst unique
      omega
    · intro k loaded' proper' i below outside
      dsimp only at outside ⊢
      have apart := outside rfl
      have far : i < 4 * indexInCache cluster ∨ 4 * indexInCache cluster + 4 ≤ i := by
        have low := stretched.low
        have high := stretched.high
        unfold sectorSize at apart
        omega
      rw [putBytes_apart (by simpa using far)]
      refine kept.window k loaded' proper' i below (fun dirty => ?_)
      obtain ⟨low, high⟩ := stretched.old dirty
      omega
    · intro other covered'
      unfold entryOf
      split
      · next same =>
          subst same
          rw [if_pos here, getLe_putBytes, entry_value]
      next different =>
        rw [kept.entries other covered']
        unfold entryOf
        split
        · next own =>
            have equal := Option.some.inj (here.symm.trans own)
            have apart := index_apart different (by
              unfold fatCacheSectors at equal ⊢
              omega)
            rw [getLe_putBytes_apart (by
              rw [length_leBytes]
              omega)]
        · rfl
  · have refused : fatWrite s cluster value = (false, (fatCacheLoad s cluster).2) := by
      exact if_neg ok
    rw [refused]
    exact ⟨kept, steady⟩

/-! ### Mounts -/

theorem fat32Mount_failed {s' : Server} (done : fat32Mount s = (false, s')) : s' = s := by
  unfold fat32Mount at done
  split at done
  · exact (Prod.mk.inj done).2.symm
  split at done
  · exact (Prod.mk.inj done).2.symm
  split at done
  · exact (Prod.mk.inj done).2.symm
  · cases done

theorem remount_parts (s : Server) (disk : Nat → Sector) (room : Nat) :
    (remount s disk room).disk = disk ∧
    (remount s disk room).room = room ∧ (remount s disk room).fatCacheStart = s.fatCacheStart ∧
      (remount s disk room).fatCache = s.fatCache ∧
      (remount s disk room).fatCacheDirty = s.fatCacheDirty ∧
      ((remount s disk room).fs = noGeometry ∨
        fat32Parse (disk 0) = some (remount s disk room).fs) := by
  unfold remount
  generalize blank : { s with
    disk := disk
    room := room
    fs := noGeometry
    mounted := false
    fds := fun _ => unusedFd } = t
  cases done : fat32Mount t with
  | mk ok =>
    subst blank
    cases ok with
    | true =>
      obtain ⟨_, parsed, rfl⟩ := fat32Mount_success done
      exact ⟨rfl, rfl, rfl, rfl, rfl, Or.inr parsed⟩
    | false =>
      have same := fat32Mount_failed done
      rw [same]
      exact ⟨rfl, rfl, rfl, rfl, rfl, Or.inl rfl⟩

theorem Retains.mirrors {disk : Nat → Sector} {room : Nat} (retains : Retains s disk room) : Mirrors
    (remount s disk room) fun cluster => diskEntry (remount s disk room) cluster % fatMask := by
  obtain ⟨clean, current⟩ := retains
  obtain ⟨sameDisk, sameRoom, sameStart, sameCache, sameDirty, volume⟩ := remount_parts s disk room
  generalize remount s disk room = t at *
  rw [← sameDirty] at clean
  have window : ∀ k, t.fatCacheStart = some (t.fs.fatStartLba + k * fatCacheSectors) →
      k * fatCacheSectors < t.fs.fatSizeSectors → t.fs.fatStartLba + t.fs.fatSizeSectors ≤ t.room ∧
        ∀ i < windowSize t k, t.fatCache i = windowByte t k i := by
    intro k loaded proper
    rcases volume with none' | parsed
    · rw [none'] at proper
      exact absurd proper (Nat.not_lt_zero _)
    rw [sameStart] at loaded
    obtain ⟨inside, bytes⟩ := current t.fs parsed k loaded proper
    rw [sameRoom, sameCache]
    refine ⟨inside, fun i below => ?_⟩
    rw [bytes i below]
    unfold windowByte
    rw [sameDisk]
  have stays : ∀ {p : Prop}, t.fatCacheDirty = true → p :=
    fun dirty => absurd (clean.symm.trans dirty) Bool.false_ne_true
  refine ⟨stays, ?_, ?_, ?_⟩
  · intro k loaded proper
    have inside := (window k loaded proper).1
    omega
  · intro k loaded proper i below _
    exact (window k loaded proper).2 i below
  intro cluster covered
  congr 1
  unfold entryOf
  split
  · next own =>
      have proper : cluster / 128 / fatCacheSectors * fatCacheSectors < t.fs.fatSizeSectors :=
        lt_of_le_of_lt (Nat.div_mul_le_self _ _) covered
      refine (getLe_shift fun b byte => ?_).symm
      obtain ⟨below, same⟩ := windowByte_entry covered byte
      rw [(window _ own proper).2 _ below, same]
  · rfl

/-! ### Runs -/

theorem Mirrors.step (mirrors : Mirrors s table) (op : Op) (guard : Guard s op) :

    GoodStep s table op ∧ Mirrors (apply s op) (note s table op) := by
  cases op with
  | mount => exact ⟨trivial, guard.mirrors⟩
  | read =>
    obtain ⟨kept, steady, value⟩ := mirrors.read guard
    exact ⟨⟨value, steady.confined⟩, kept⟩
  | write _ value =>
    obtain ⟨kept, steady⟩ := mirrors.write guard value
    exact ⟨steady.confined, kept⟩
  | flush =>
    obtain ⟨kept, steady, _⟩ := mirrors.flush
    exact ⟨steady.confined, kept⟩

theorem Mirrors.run : ∀ (ops : List Op) {s : Server} {table : Nat → Nat},
    Mirrors s table → Guarded s ops → GoodRun s table ops := by
  intro ops
  induction ops with
  | nil => exact fun _ _ => trivial
  | cons op _ ih =>
    rintro _ _ mirrors ⟨guard, guarded⟩
    obtain ⟨good, kept⟩ := mirrors.step op guard
    exact ⟨good, ih kept guarded⟩

/-- The server as it starts: nothing is mounted, and nothing is in cache. -/
structure Started (s : Server) : Prop where
  fs : s.fs = noGeometry
  start : s.fatCacheStart = none
  clean : s.fatCacheDirty = false

theorem Started.mirrors (started : Started s) (table : Nat → Nat) : Mirrors s table where
  dirty := fun dirty => absurd (started.clean.symm.trans dirty) Bool.false_ne_true
  room := fun k loaded => by
    rw [started.start] at loaded
    cases loaded
  window := fun k loaded => by
    rw [started.start] at loaded
    cases loaded
  entries := fun cluster covered => by
    rw [started.fs] at covered
    exact absurd covered (Nat.not_lt_zero _)

/-- Every run whose steps meet the conditions reads what the FAT holds and
writes nothing but the FAT copies. -/
theorem fat_bounds {s : Server} (started : Started s) (table : Nat → Nat)
    (ops : List Op) (guarded : Guarded s ops) : GoodRun s table ops :=
  (started.mirrors table).run ops guarded

instance (fs : Geometry) (cluster : Nat) : Decidable (Gap fs cluster) :=
  inferInstanceAs (Decidable (_ ∧ _))

/-- A boot sector with two FATs and clusters of one sector. -/
def bootOf (reserved fatSize total : Nat) : Sector :=
  (zeroSector : Sector)
    |> putBytes 11 (leBytes 2 sectorSize)
    |> putBytes 13 [1]
    |> putBytes 14 (leBytes 2 reserved)
    |> putBytes 16 [2]
    |> putBytes 32 (leBytes 4 total)
    |> putBytes 36 (leBytes 4 fatSize)
    |> putBytes 44 [2]

/-- A disk with one entry of the FAT set. -/
def diskOf (reserved fatSize total cluster value : Nat) : Nat → Sector :=
  fun sector =>
    if sector = 0 then bootOf reserved fatSize total
    else if sector = reserved + cluster / 128 then
      putBytes (4 * (cluster % 128)) (leBytes 4 value) zeroSector
    else zeroSector

/-- The server before its first mount. -/
def idle : Server where
  disk := fun _ => zeroSector
  room := 0
  sent := 0
  identify := none
  fs := noGeometry
  mounted := false
  fatCache := fun _ => 0
  fatCacheStart := none
  fatCacheDirty := false
  fatDirtyLo := 0
  fatDirtyHi := 0
  clusterCache := []
  clusterCacheClock := 0
  nextFreeHint := 2
  fds := fun _ => unusedFd

theorem idle_started : Started idle := ⟨rfl, rfl, rfl⟩

/-- An entry is read, another one written and flushed. -/
theorem fat_bounds_small : GoodRun idle (fun _ => 0) [.mount (diskOf 32 2 600 5 6) 600,
    .read 5, .write 6 fat32Eoc, .flush, .read 6, .read 20000] := by
  refine fat_bounds idle_started _ _ ⟨⟨rfl, ?_⟩, ?_⟩
  · intro _ _ k impossible
    cases impossible
  refine ⟨?_, ?_, trivial, ?_, ?_, trivial⟩
  · change ¬ Gap _ _
    decide +kernel
  · change ¬ Gap _ _
    decide +kernel
  · change ¬ Gap _ _
    decide +kernel
  · change ¬ Gap _ _
    decide +kernel

/-- A cluster behind the last entry of a FAT of 129 sectors reads as an entry of
the first window; an entry read before a mount is read again after it; and a
dirty window of the volume before is stored in a reserved sector of the next. -/
theorem fat_bounds_fails : ¬ GoodRun idle (fun _ => 0) [.mount (diskOf 32 129 20000 200 7) 20000,
    .read 200, .read 16584] ∧ ¬ GoodRun idle (fun _ => 0) [.mount (diskOf 32 2 600 5 6) 600,
      .read 5, .mount (diskOf 32 2 600 5 0) 600, .read 5] ∧ ¬ GoodRun idle (fun _ => 0)
      [.mount (diskOf 32 2 600 5 6) 600, .write 5 9, .mount (diskOf 64 2 600 5 6) 600, .flush] := by
  refine ⟨?_, ?_, ?_⟩
  · rintro ⟨_, _, ⟨read, _⟩, _⟩
    rcases read with ⟨covered, _⟩ | ended
    · exact absurd covered (by decide +kernel)
    · exact absurd ended (by decide +kernel)
  · rintro ⟨_, _, _, ⟨read, _⟩, _⟩
    rcases read with ⟨_, value⟩ | ended
    · exact absurd value (by decide +kernel)
    · exact absurd ended (by decide +kernel)
  · rintro ⟨_, _, _, confined, _⟩
    have reserved := congrFun (confined 32 (by
      rintro (⟨low, _⟩ | ⟨_, low, _⟩)
      · exact absurd low (by decide +kernel)
      · exact absurd low (by decide +kernel))) 20
    exact absurd reserved (by decide +kernel)

end MainDob.Proofs.FatBounds
