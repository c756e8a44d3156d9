/-
Purpose: The cached FAT is a table. While the block writes to the FAT succeed, reading an entry
  gives the value last written to it, writing one changes no other, and a flush brings the table to
  disk; loading another window is invisible.
Main exports: Volume.entry, Volume.table, Coherent
-/
import MainDob.Fs.Fat
import Mathlib.Tactic.Common

namespace MainDob.Fs

open Function (update update_of_ne update_self)

/-! ### The logical table -/

/-- The table has an entry for the cluster. -/
def Volume.Covers (v : Volume) (cluster : Nat) : Prop :=
  cluster / entriesPerSector < v.fatSizeSectors

instance (v : Volume) (cluster : Nat) : Decidable (v.Covers cluster) :=
  inferInstanceAs (Decidable (_ < _))

/-- The entry of a cluster: from the window in cache, else from disk. -/
def Volume.entry (v : Volume) (cluster : Nat) : Nat :=
  if v.fatCacheStart = some (cluster / windowEntries) then
    v.fatCache (cluster % windowEntries)
  else v.fat cluster

/-- What `fat_read` is meant to return. -/
def Volume.table (v : Volume) (cluster : Nat) : Nat :=
  if v.Covers cluster then v.entry cluster % fatMask else fat32Eoc

/-- The sector of the window that holds the entry of the cluster. -/
def windowSector (cluster : Nat) : Nat :=
  cluster % windowEntries / entriesPerSector

/-- Outside the dirty range of the window, the cache agrees with the disk. -/
structure Coherent (v : Volume) : Prop where
  idle : v.fatCacheStart = none → v.fatCacheDirty = false
  range : v.fatCacheDirty = true → v.fatDirtyLo ≤ v.fatDirtyHi ∧ v.fatDirtyHi < fatCacheSectors
  window : ∀ window, v.fatCacheStart = some window → window * fatCacheSectors < v.fatSizeSectors
  clean : ∀ cluster, v.Covers cluster → v.fatCacheStart = some (cluster / windowEntries) →
    (v.fatCacheDirty = true → ¬ (v.fatDirtyLo ≤ windowSector cluster ∧
        windowSector cluster ≤ v.fatDirtyHi)) → v.fatCache (cluster % windowEntries) = v.fat cluster

/-- The block writes to the FAT succeed. -/
def FatReliable (v : Volume) : Prop := ∀ n, v.outcome .fat n = true

/-- The geometry and the fate of the block writes are the same. -/
structure Shape (v v' : Volume) : Prop where
  spc : v'.sectorsPerCluster = v.sectorsPerCluster
  fatSize : v'.fatSizeSectors = v.fatSizeSectors
  clusters : v'.totalClusters = v.totalClusters
  fats : v'.numFats = v.numFats
  root : v'.rootCluster = v.rootCluster
  outcome : v'.outcome = v.outcome

theorem Shape.refl (v : Volume) : Shape v v := ⟨rfl, rfl, rfl, rfl, rfl, rfl⟩

theorem Shape.trans {a b c : Volume} (first : Shape a b) (second : Shape b c) : Shape a c where
  spc := second.spc.trans first.spc
  fatSize := second.fatSize.trans first.fatSize
  clusters := second.clusters.trans first.clusters
  fats := second.fats.trans first.fats
  root := second.root.trans first.root
  outcome := second.outcome.trans first.outcome

variable {v v' : Volume}

theorem Shape.reliable (shape : Shape v v') (reliable : FatReliable v) : FatReliable v' := by
  intro n
  rw [shape.outcome]
  exact reliable n

theorem Shape.covers (shape : Shape v v') (cluster : Nat) :
    v'.Covers cluster ↔ v.Covers cluster := by
  unfold Volume.Covers
  rw [shape.fatSize]

theorem Shape.bytesPerCluster (shape : Shape v v') : v'.bytesPerCluster = v.bytesPerCluster := by
  unfold Volume.bytesPerCluster
  rw [shape.spc]

/-- Everything but the table and its cache is the same. -/
structure Kept (v v' : Volume) : Prop extends Shape v v' where
  data : v'.data = v.data
  slots : v'.slots = v.slots
  writes : ∀ region, region ≠ .fat → v'.writes region = v.writes region

theorem Kept.refl (v : Volume) : Kept v v := ⟨Shape.refl v, rfl, rfl, fun _ _ => rfl⟩

theorem Kept.trans {a b c : Volume} (first : Kept a b) (second : Kept b c) : Kept a c where
  toShape := first.toShape.trans second.toShape
  data := second.data.trans first.data
  slots := second.slots.trans first.slots
  writes := fun region other => (second.writes region other).trans (first.writes region other)

theorem Kept.table (kept : Kept v v')
    (entries : ∀ cluster, v.Covers cluster → v'.entry cluster = v.entry cluster) :

    v'.table = v.table := by
  funext cluster
  unfold Volume.table
  by_cases covered : v.Covers cluster
  · rw [if_pos covered, if_pos ((kept.covers cluster).mpr covered), entries cluster covered]
  · rw [if_neg covered, if_neg (fun other => covered ((kept.covers cluster).mp other))]

/-! ### Windows and sectors -/

theorem sector_split (cluster : Nat) : cluster / entriesPerSector =
      cluster / windowEntries * fatCacheSectors + windowSector cluster := by
  unfold windowSector windowEntries fatCacheSectors entriesPerSector
  omega

theorem windowSector_lt (cluster : Nat) : windowSector cluster < fatCacheSectors := by
  unfold windowSector windowEntries fatCacheSectors entriesPerSector
  omega

theorem window_index (cluster : Nat) :
    cluster / windowEntries * windowEntries + cluster % windowEntries = cluster :=
  Nat.div_add_mod' cluster windowEntries

variable {cluster : Nat}

theorem covered_window (covered : v.Covers cluster) :
    cluster / windowEntries * fatCacheSectors < v.fatSizeSectors ∧ cluster % windowEntries <
        min fatCacheSectors (v.fatSizeSectors - cluster / windowEntries * fatCacheSectors) *
          entriesPerSector := by
  unfold Volume.Covers at covered
  unfold windowEntries fatCacheSectors entriesPerSector at *
  omega

/-! ### Flush -/

theorem dirty_sectors (window : Nat) (range : v.fatDirtyLo ≤ v.fatDirtyHi ∧
    v.fatDirtyHi < fatCacheSectors) (covered : v.Covers cluster) :
    (window * fatCacheSectors + v.fatDirtyLo ≤ cluster / entriesPerSector ∧
      cluster / entriesPerSector < window * fatCacheSectors + v.fatDirtyLo +
        min (v.fatDirtyHi - v.fatDirtyLo + 1)
          (v.fatSizeSectors - (window * fatCacheSectors + v.fatDirtyLo))) ↔
      window = cluster / windowEntries ∧
      v.fatDirtyLo ≤ windowSector cluster ∧ windowSector cluster ≤ v.fatDirtyHi := by
  have split := sector_split cluster
  have low := windowSector_lt cluster
  unfold Volume.Covers at covered
  unfold fatCacheSectors at *
  omega

theorem storeSectors_eq (coherent : Coherent v) {window : Nat}
    (loaded : v.fatCacheStart = some window) (dirty : v.fatCacheDirty = true)
    (copy : Nat → Nat) (covered : v.Covers cluster)
    (agrees : (v.fatCacheStart = some (cluster / windowEntries) → v.fatCacheDirty = true →
      ¬ (v.fatDirtyLo ≤ windowSector cluster ∧
        windowSector cluster ≤ v.fatDirtyHi)) → copy cluster = v.fat cluster) :
    storeSectors v (window * fatCacheSectors + v.fatDirtyLo) (min (v.fatDirtyHi - v.fatDirtyLo + 1)
        (v.fatSizeSectors - (window * fatCacheSectors + v.fatDirtyLo))) copy
      cluster = v.entry cluster := by
  have sectors := dirty_sectors window (coherent.range dirty) covered
  unfold storeSectors Volume.entry
  by_cases inside : window = cluster / windowEntries ∧
      v.fatDirtyLo ≤ windowSector cluster ∧ windowSector cluster ≤ v.fatDirtyHi
  · rw [if_pos (sectors.mpr inside), if_pos (by rw [loaded, inside.1])]
  rw [if_neg (fun stored => inside (sectors.mp stored))]
  have outside : v.fatCacheStart = some (cluster / windowEntries) → v.fatCacheDirty = true →
      ¬ (v.fatDirtyLo ≤ windowSector cluster ∧ windowSector cluster ≤ v.fatDirtyHi) := by
    intro here _ within
    rw [loaded] at here
    exact inside ⟨Option.some.inj here, within⟩
  rw [agrees outside]
  split
  · next here => exact (coherent.clean cluster covered here (outside here)).symm
  · rfl

/-- What a flush leaves: nothing dirty, and the table on disk. -/
structure Flushed (v v' : Volume) : Prop extends Kept v v' where
  loaded : v'.fatCacheStart = v.fatCacheStart
  cached : v'.fatCache = v.fatCache
  hint : v'.nextFreeHint = v.nextFreeHint
  stored : ∀ cluster, v.Covers cluster → v'.fat cluster = v.entry cluster
  tidy : v'.fatCacheDirty = false

theorem fatFlush_flushed (coherent : Coherent v) (reliable : FatReliable v) :
    Flushed v (fatFlush v) := by
  unfold fatFlush
  split
  · next empty =>
      have onDisk : ∀ cluster, v.entry cluster = v.fat cluster := by
        intro cluster
        unfold Volume.entry
        rw [empty, if_neg (by simp)]
      exact ⟨Kept.refl v, rfl, rfl, rfl, fun cluster _ => (onDisk cluster).symm,
        coherent.idle empty⟩
  next window loaded =>
    split
    · next dirty =>
        simp only [diskWrite, reliable _, if_true]
        have stored : ∀ cluster, v.Covers cluster → _ = v.entry cluster := fun _ covered =>
          storeSectors_eq coherent loaded dirty v.fat covered fun _ => rfl
        split
        · refine ⟨⟨⟨rfl, rfl, rfl, rfl, rfl, rfl⟩, rfl, rfl, ?_⟩, rfl, rfl, rfl, stored, rfl⟩
          intro region other
          simp only [update_of_ne other]
        · refine ⟨⟨⟨rfl, rfl, rfl, rfl, rfl, rfl⟩, rfl, rfl, ?_⟩, rfl, rfl, rfl, stored, rfl⟩
          intro region other
          simp only [update_of_ne other]
    · next clean =>
        have onDisk : ∀ cluster, v.Covers cluster → v.entry cluster = v.fat cluster := by
          intro cluster covered
          unfold Volume.entry
          split
          · next here => exact coherent.clean cluster covered here (fun dirty => absurd dirty clean)
          · rfl
        exact ⟨Kept.refl v, rfl, rfl, rfl, fun cluster covered => (onDisk cluster covered).symm,
          Bool.eq_false_iff.mpr clean⟩

/-! ### Load, read and write -/

theorem Flushed.entry (flushed : Flushed v v') (covered : v.Covers cluster) :
    v'.entry cluster = v.entry cluster := by
  have stored := flushed.stored cluster covered
  unfold Volume.entry at stored ⊢
  rw [flushed.loaded, flushed.cached]
  split
  · rfl
  next away =>
    rw [if_neg away] at stored
    exact stored

theorem Flushed.table (flushed : Flushed v v') : v'.table = v.table :=
  flushed.toKept.table (fun _ covered => flushed.entry covered)

theorem fatFlush_spec (coherent : Coherent v) (reliable : FatReliable v) :
    Coherent (fatFlush v) ∧ (fatFlush v).table = v.table := by
  have flushed := fatFlush_flushed coherent reliable
  refine ⟨⟨fun _ => flushed.tidy, ?_, ?_, ?_⟩, flushed.table⟩
  · intro dirty
    rw [flushed.tidy] at dirty
    cases dirty
  · intro window here
    rw [flushed.loaded] at here
    rw [flushed.fatSize]
    exact coherent.window window here
  · intro cluster covered here _
    rw [flushed.covers] at covered
    rw [flushed.loaded] at here
    rw [flushed.stored cluster covered, flushed.cached]
    unfold Volume.entry
    rw [if_pos here]

theorem loaded_fresh (flushed : Flushed v v') {other : Nat} (covered : v.Covers other)
    (same : other / windowEntries = cluster / windowEntries) :
    (if other % windowEntries < min fatCacheSectors
        (v'.fatSizeSectors - cluster / windowEntries * fatCacheSectors) * entriesPerSector then
      v'.fat (cluster / windowEntries * windowEntries + other % windowEntries)
    else v'.fatCache (other % windowEntries)) = v'.fat other := by
  have read : other % windowEntries < min fatCacheSectors
      (v'.fatSizeSectors - cluster / windowEntries * fatCacheSectors) *
        entriesPerSector := by
    rw [flushed.fatSize, ← same]
    exact (covered_window covered).2
  rw [if_pos read, ← same, window_index]

theorem fatCacheLoad_entry (coherent : Coherent v) (reliable : FatReliable v)
    (cluster : Nat) {other : Nat} (covered : v.Covers other) :
    (fatCacheLoad v cluster).2.entry other = v.entry other := by
  unfold fatCacheLoad
  dsimp only
  split
  · rfl
  split
  · rfl
  have flushed := fatFlush_flushed coherent reliable
  rw [← flushed.stored other covered]
  unfold Volume.entry
  split
  · next here => exact loaded_fresh flushed covered (Option.some.inj here).symm
  · rfl

theorem fatCacheLoad_spec (coherent : Coherent v) (reliable : FatReliable v)
    (covered : v.Covers cluster) :
    (fatCacheLoad v cluster).1 = true ∧ Kept v (fatCacheLoad v cluster).2 ∧
      Coherent (fatCacheLoad v cluster).2 ∧ (fatCacheLoad v cluster).2.table = v.table ∧
      (fatCacheLoad v cluster).2.nextFreeHint = v.nextFreeHint ∧
      (fatCacheLoad v cluster).2.fatCacheStart = some (cluster / windowEntries) := by
  obtain ⟨exists', _⟩ := covered_window covered
  have entries : ∀ other, v.Covers other → (fatCacheLoad v cluster).2.entry other = v.entry other :=
    fun other => fatCacheLoad_entry coherent reliable cluster
  unfold fatCacheLoad at entries ⊢
  rw [if_neg (Nat.not_le.mpr exists')] at entries ⊢
  split at entries
  · next loaded =>
      rw [if_pos loaded]
      exact ⟨rfl, Kept.refl v, coherent, rfl, rfl, loaded⟩
  next away =>
  rw [if_neg away]
  have flushed := fatFlush_flushed coherent reliable
  refine ⟨rfl, { flushed.toKept with }, ⟨?_, ?_, ?_, ?_⟩,
    Kept.table { flushed.toKept with } entries, flushed.hint, rfl⟩
  · exact nofun
  · intro dirty
    have clean : (fatFlush v).fatCacheDirty = true := dirty
    rw [flushed.tidy] at clean
    cases clean
  · intro window here
    cases here
    rw [flushed.fatSize]
    exact exists'
  · intro other coveredOther here _
    exact loaded_fresh flushed ((flushed.covers other).mp coveredOther) (Option.some.inj here).symm

theorem table_of_loaded (covered : v.Covers cluster)
    (loaded : v.fatCacheStart = some (cluster / windowEntries)) :
    v.table cluster = v.fatCache (cluster % windowEntries) % fatMask := by
  unfold Volume.table Volume.entry
  rw [if_pos covered, if_pos loaded]

/-- What an operation on the table may leave: a coherent volume with the same
data and directories. -/
structure Tabled (v v' : Volume) : Prop extends Kept v v' where
  coherent : Coherent v'
  hint : v'.nextFreeHint = v.nextFreeHint

/-- What a read of the table may leave: the same table as well. -/
structure Seen (v v' : Volume) : Prop extends Tabled v v' where
  table : v'.table = v.table

theorem Seen.refl (coherent : Coherent v) : Seen v v := ⟨⟨Kept.refl v, coherent, rfl⟩, rfl⟩

theorem Seen.trans {a b c : Volume} (first : Seen a b) (second : Seen b c) : Seen a c :=
  ⟨⟨first.toKept.trans second.toKept, second.coherent,
    second.hint.trans first.hint⟩, second.table.trans first.table⟩

theorem fatRead_spec (coherent : Coherent v) (reliable : FatReliable v) (covered : v.Covers cluster)
    : (fatRead v cluster).1 = v.table cluster ∧ Seen v (fatRead v cluster).2 := by
  obtain ⟨ok, kept, coherent', same, hint, loaded⟩ := fatCacheLoad_spec coherent reliable covered
  unfold fatRead
  dsimp only
  rw [if_pos ok]
  refine ⟨?_, ⟨⟨kept, coherent', hint⟩, same⟩⟩
  rw [← same]
  exact (table_of_loaded ((kept.covers cluster).mpr covered) loaded).symm

theorem markDirty_range {sector : Nat}
    (range : v.fatCacheDirty = true → v.fatDirtyLo ≤ v.fatDirtyHi ∧ v.fatDirtyHi < fatCacheSectors)
    (bound : sector < fatCacheSectors) : (markDirty v sector).fatCacheDirty = true ∧
      (markDirty v sector).fatDirtyLo ≤ (markDirty v sector).fatDirtyHi ∧
      (markDirty v sector).fatDirtyHi < fatCacheSectors ∧
      (∀ other, (other = sector ∨ (v.fatCacheDirty = true ∧
          v.fatDirtyLo ≤ other ∧ other ≤ v.fatDirtyHi)) →
        (markDirty v sector).fatDirtyLo ≤ other ∧ other ≤ (markDirty v sector).fatDirtyHi) := by
  unfold markDirty
  cases dirty : v.fatCacheDirty with
  | false =>
    refine ⟨rfl, le_refl _, bound, ?_⟩
    rintro _ (rfl | ⟨impossible, _⟩)
    · exact ⟨le_refl _, le_refl _⟩
    · cases impossible
  | true =>
    obtain ⟨order, top⟩ := range dirty
    simp only [Bool.not_true, Bool.false_eq_true, if_false]
    split
    · refine ⟨rfl, by dsimp only; omega, top, ?_⟩
      dsimp only
      omega
    · split
      · refine ⟨rfl, by dsimp only; omega, bound, ?_⟩
        dsimp only
        omega
      · refine ⟨dirty, order, top, ?_⟩
        omega

theorem markDirty_same (v : Volume) (sector : Nat) :
    Kept v (markDirty v sector) ∧ (markDirty v sector).fat = v.fat ∧
      (markDirty v sector).fatCopy = v.fatCopy ∧ (markDirty v sector).fatCache = v.fatCache ∧
      (markDirty v sector).fatCacheStart = v.fatCacheStart ∧
      (markDirty v sector).nextFreeHint = v.nextFreeHint := by
  have same : Kept v v := Kept.refl v
  unfold markDirty
  split
  · exact ⟨{ same with }, rfl, rfl, rfl, rfl, rfl⟩
  split
  · exact ⟨{ same with }, rfl, rfl, rfl, rfl, rfl⟩
  split
  · exact ⟨{ same with }, rfl, rfl, rfl, rfl, rfl⟩
  · exact ⟨same, rfl, rfl, rfl, rfl, rfl⟩

theorem setCached_entry (loaded : v.fatCacheStart = some (cluster / windowEntries)) (value : Nat) :
    (markDirty (setCached v (cluster % windowEntries) value) (windowSector cluster)).entry =
      update v.entry cluster (v.entry cluster / fatMask * fatMask + value % fatMask) := by
  obtain ⟨_, fat, _, cache, start, _⟩ := markDirty_same
    (setCached v (cluster % windowEntries) value) (windowSector cluster)
  funext other
  have old : v.entry cluster = v.fatCache (cluster % windowEntries) := by
    rw [Volume.entry, if_pos loaded]
  have new : (markDirty (setCached v (cluster % windowEntries) value)
      (windowSector cluster)).entry other =
        (setCached v (cluster % windowEntries) value).entry other := by
    unfold Volume.entry
    rw [start, cache, fat]
  rw [new, old]
  by_cases same : other = cluster
  · subst same
    rw [update_self]
    exact (if_pos loaded).trans (update_self _ _ _)
  rw [update_of_ne same]
  unfold Volume.entry
  by_cases here : v.fatCacheStart = some (other / windowEntries)
  · have apart : other % windowEntries ≠ cluster % windowEntries := by
      intro equal
      rw [loaded] at here
      have window := Option.some.inj here
      refine same ?_
      rw [← window_index other, ← window_index cluster, equal, window]
    rw [if_pos here]
    exact (if_pos here).trans (update_of_ne apart _ _)
  · rw [if_neg here]
    exact if_neg here

theorem setCached_spec (coherent : Coherent v)
    (loaded : v.fatCacheStart = some (cluster / windowEntries))
    (covered : v.Covers cluster) (value : Nat) {written : Volume} (shape : written = markDirty
    (setCached v (cluster % windowEntries) value) (windowSector cluster)) :
    Tabled v written ∧ written.table = update v.table cluster (value % fatMask) := by
  have base : Kept v (setCached v (cluster % windowEntries) value) := { Kept.refl v with }
  have same := markDirty_same (setCached v (cluster % windowEntries) value) (windowSector cluster)
  have range := markDirty_range (v := setCached v (cluster % windowEntries) value) coherent.range
    (windowSector_lt cluster)
  rw [← shape] at same range
  obtain ⟨marked, fat, _, cache, start, hint⟩ := same
  obtain ⟨dirty, order, top, holds⟩ := range
  have kept : Kept v written := base.trans marked
  have fat : written.fat = v.fat := fat
  have start : written.fatCacheStart = v.fatCacheStart := start
  have cache : written.fatCache = update v.fatCache (cluster % windowEntries)
      (v.fatCache (cluster % windowEntries) / fatMask * fatMask + value % fatMask) := cache
  -- outside the new range the entry is another one, and was clean before
  have elsewhere : ∀ other, ¬ (written.fatDirtyLo ≤ windowSector other ∧
        windowSector other ≤ written.fatDirtyHi) → other % windowEntries ≠ cluster % windowEntries ∧
      (v.fatCacheDirty = true → ¬ (v.fatDirtyLo ≤ windowSector other ∧
        windowSector other ≤ v.fatDirtyHi)) := by
    intro other outside
    constructor
    · intro equal
      refine outside (holds _ (Or.inl ?_))
      unfold windowSector
      rw [equal]
    · exact fun was within => outside (holds _ (Or.inr ⟨was, within⟩))
  refine ⟨⟨kept, ⟨?_, fun _ => ⟨order, top⟩, ?_, ?_⟩, hint⟩, ?_⟩
  · intro empty
    rw [start, loaded] at empty
    cases empty
  · intro window here
    rw [start] at here
    rw [kept.fatSize]
    exact coherent.window window here
  · intro other coveredOther here outside
    obtain ⟨apart, was⟩ := elsewhere other (outside dirty)
    rw [start] at here
    rw [cache, fat, update_of_ne apart]
    exact coherent.clean other ((kept.covers other).mp coveredOther) here was
  · have entries := setCached_entry loaded value
    rw [← shape] at entries
    funext other
    unfold Volume.table
    by_cases same : other = cluster
    · subst same
      rw [update_self, if_pos ((kept.covers other).mpr covered), entries,
        update_self, Nat.mul_add_mod_self_right, Nat.mod_mod]
    · rw [update_of_ne same, entries, update_of_ne same]
      by_cases coveredOther : v.Covers other
      · rw [if_pos coveredOther, if_pos ((kept.covers other).mpr coveredOther)]
      · rw [if_neg coveredOther, if_neg (fun also => coveredOther ((kept.covers other).mp also))]

section

variable (coherent : Coherent v) (reliable : FatReliable v) (covered : v.Covers cluster)
  (value : Nat)
include coherent reliable covered value

theorem fatWrite_spec : Tabled v (fatWrite v cluster value).2 ∧
    (fatWrite v cluster value).2.table = update v.table cluster (value % fatMask) := by
  obtain ⟨ok, kept, coherent', same, hint, loaded⟩ := fatCacheLoad_spec coherent reliable covered
  unfold fatWrite
  dsimp only
  rw [if_pos ok]
  generalize (fatCacheLoad v cluster).2 = u at *
  rw [← same]
  have updated := setCached_spec coherent' loaded ((kept.covers cluster).mpr covered) value rfl
  exact ⟨⟨kept.trans updated.1.toKept, updated.1.coherent, updated.1.hint.trans hint⟩, updated.2⟩

theorem fatWrite_entry {other : Nat} (coveredOther : v.Covers other) :
    (fatWrite v cluster value).2.entry other = update v.entry cluster
        (v.entry cluster / fatMask * fatMask + value % fatMask) other := by
  obtain ⟨ok, _, _, _, _, loaded⟩ := fatCacheLoad_spec coherent reliable covered
  have before := fatCacheLoad_entry coherent reliable cluster coveredOther
  have here := fatCacheLoad_entry coherent reliable cluster covered
  unfold fatWrite
  dsimp only
  rw [if_pos ok]
  change (markDirty (setCached _ (cluster % windowEntries) value)
    (windowSector cluster)).entry other = _
  rw [setCached_entry loaded value, here]
  by_cases same : other = cluster
  · subst same
    rw [update_self, update_self]
  · rw [update_of_ne same, update_of_ne same, before]

end

/-! ### Clusters without an entry -/

/-- The cluster has no entry, but its window has: the check of
`fat_cache_load` lets it through, and what is read is left over from another
window. -/
def Volume.Gap (v : Volume) (cluster : Nat) : Prop :=
  ¬ v.Covers cluster ∧ cluster / windowEntries * fatCacheSectors < v.fatSizeSectors

theorem Shape.gap (shape : Shape v v') (cluster : Nat) : v'.Gap cluster ↔ v.Gap cluster := by
  unfold Volume.Gap
  rw [shape.covers, shape.fatSize]

theorem fatCacheLoad_beyond (past : ¬ v.Covers cluster) (proper : ¬ v.Gap cluster) :
    fatCacheLoad v cluster = (false, v) := by
  have beyond : v.fatSizeSectors ≤ cluster / windowEntries * fatCacheSectors := by
    by_contra inside
    exact proper ⟨past, Nat.lt_of_not_le inside⟩
  unfold fatCacheLoad
  rw [if_pos beyond]

section

variable (coherent : Coherent v) (reliable : FatReliable v) (proper : ¬ v.Gap cluster)
include coherent reliable proper

theorem fatRead_proper
    : (fatRead v cluster).1 = v.table cluster ∧ Seen v (fatRead v cluster).2 := by
  by_cases covered : v.Covers cluster
  · exact fatRead_spec coherent reliable covered
  unfold fatRead
  rw [fatCacheLoad_beyond covered proper]
  refine ⟨?_, Seen.refl coherent⟩
  unfold Volume.table
  rw [if_neg covered]
  rfl

theorem fatWrite_proper (value : Nat) :
    Tabled v (fatWrite v cluster value).2 ∧ (fatWrite v cluster value).2.table =
        if v.Covers cluster then update v.table cluster (value % fatMask) else v.table := by
  by_cases covered : v.Covers cluster
  · rw [if_pos covered]
    exact fatWrite_spec coherent reliable covered value
  · rw [if_neg covered]
    unfold fatWrite
    rw [fatCacheLoad_beyond covered proper]
    exact ⟨⟨Kept.refl v, coherent, rfl⟩, rfl⟩

end

end MainDob.Fs
