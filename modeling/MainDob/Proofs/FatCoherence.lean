/-
Purpose: Whatever the order of reads, writes and flushes, the cached FAT is a
  plain array of entries, and a flush brings it to the first copy on disk; the
  second copy follows it where it agreed before or was written.
Main exports: Op, perform, fat_plain_array
-/
import MainDob.Proofs.FatTable

namespace MainDob.Proofs.FatCoherence

open Fs
open Function

/-! ## The operations and the plain array -/

/-- The calls on the table. -/
inductive Op where
  | read (cluster : Nat)
  | write (cluster value : Nat)
  | flush
deriving DecidableEq

/-- The cluster of the call is one of the volume. -/
def Op.Below (limit : Nat) : Op → Prop
  | .read cluster | .write cluster _ => cluster < limit
  | .flush => True

def perform (v : Volume) : Op → Volume
  | .read cluster => (fatRead v cluster).2
  | .write cluster value => (fatWrite v cluster value).2
  | .flush => fatFlush v

/-- The same call on a plain array of 32-bit entries: a write changes the lower
28 bits of one. -/
def record (table : Nat → Nat) : Op → Nat → Nat
  | .write cluster value => Function.update table cluster
      (table cluster / fatMask * fatMask + value % fatMask)
  | .read _ | .flush => table

/-- The entry was written in the course of the calls. -/
def Written (ops : List Op) (cluster : Nat) : Prop :=
  ∃ value, Op.write cluster value ∈ ops

/-! ## The second copy on part of the clusters -/

/-- The entry is in the dirty range of the window in cache. -/
def Dirty (v : Volume) (cluster : Nat) : Prop :=
  v.fatCacheStart = some (cluster / windowEntries) ∧ v.fatCacheDirty = true ∧
    v.fatDirtyLo ≤ windowSector cluster ∧ windowSector cluster ≤ v.fatDirtyHi

/-- The cache and the first copy are coherent, and the second copy has the
clusters of `agree` right that are not in the dirty range. -/
structure Mirrored (agree : Nat → Prop) (v : Volume) : Prop where
  coherent : Coherent v
  copies : 1 < v.numFats → ∀ cluster, v.Covers cluster → agree cluster →
    ¬ Dirty v cluster → v.fatCopy cluster = v.fat cluster

variable {cluster : Nat}

namespace Mirrored

variable {agree : Nat → Prop} {v : Volume}

section

variable (mirrored : Mirrored agree v)
include mirrored

section

variable (reliable : FatReliable v)
include reliable

theorem copied (two : 1 < v.numFats) (covered : v.Covers cluster)
    (agreed : agree cluster) : (fatFlush v).fatCopy cluster = v.entry cluster := by
  have coherent := mirrored.coherent
  have agrees := mirrored.copies two cluster covered agreed
  unfold fatFlush
  cases start : v.fatCacheStart with
  | none =>
    have away : ¬ Dirty v cluster := fun dirty => by
      rw [Dirty, start] at dirty
      cases dirty.1
    rw [agrees away, Volume.entry, start, if_neg (by simp)]
  | some =>
    by_cases dirty : v.fatCacheDirty = true
    · simp only [dirty, if_true, two, diskWrite, reliable _]
      refine storeSectors_eq coherent start dirty v.fatCopy covered ?_
      exact fun outside => agrees fun within => outside within.1 within.2.1 within.2.2
    · simp only [dirty, if_false, Bool.false_eq_true]
      rw [agrees fun within => dirty within.2.1, Volume.entry]
      split
      · next here => exact (coherent.clean cluster covered here fun was => absurd was dirty).symm
      · rfl

theorem flush : Mirrored agree (fatFlush v) := by
  have flushed := fatFlush_flushed mirrored.coherent reliable
  refine ⟨(fatFlush_spec mirrored.coherent reliable).1, ?_⟩
  · intro two cluster covered agreed _
    have coveredBefore : v.Covers cluster := (flushed.covers cluster).mp covered
    have twoBefore : 1 < v.numFats := flushed.fats ▸ two
    exact (mirrored.copied reliable twoBefore coveredBefore agreed).trans
      (flushed.stored cluster coveredBefore).symm

theorem load (covered : v.Covers cluster) : Mirrored agree (fatCacheLoad v cluster).2 := by
  refine ⟨(fatCacheLoad_spec mirrored.coherent reliable covered).2.2.1, ?_⟩
  have flushed := (mirrored.flush reliable).copies
  unfold fatCacheLoad
  dsimp only
  split
  · exact mirrored.copies
  split
  · exact mirrored.copies
  intro two other coveredOther agreed _
  refine flushed two other coveredOther agreed fun dirty => ?_
  have tidy :
    (fatFlush v).fatCacheDirty = false := (fatFlush_flushed mirrored.coherent reliable).tidy
  rw [Dirty, tidy] at dirty
  exact absurd dirty.2.1 (by decide)

theorem write (covered : v.Covers cluster) (value : Nat)
    : Mirrored (fun other => agree other ∨ other = cluster) (fatWrite v cluster value).2 := by
  have coherent := mirrored.coherent
  refine ⟨(fatWrite_spec coherent reliable covered value).1.coherent, ?_⟩
  obtain ⟨ok, kept, coherent', _, _, loaded⟩ := fatCacheLoad_spec coherent reliable covered
  have copies := (mirrored.load reliable covered).copies
  unfold fatWrite
  dsimp only
  rw [if_pos ok]
  generalize (fatCacheLoad v cluster).2 = u at *
  obtain ⟨shape, fat, copy, _, start, _⟩ := markDirty_same
    (setCached u (cluster % windowEntries) value) (windowSector cluster)
  obtain ⟨dirty, _, _, holds⟩ := markDirty_range
    (v := setCached u (cluster % windowEntries) value) coherent'.range (windowSector_lt cluster)
  intro two other coveredOther agreed outside
  change (markDirty _ (windowSector cluster)).fatCopy other =
    (markDirty _ (windowSector cluster)).fat other
  rw [copy, fat]
  have twoBefore : 1 < u.numFats := shape.fats ▸ two
  have coveredBefore : u.Covers other := (shape.covers other).mp coveredOther
  rcases agreed with agreed | rfl
  · refine copies twoBefore other coveredBefore agreed fun was => outside ?_
    exact ⟨start.trans was.1, dirty, holds _ (.inr ⟨was.2.1, was.2.2⟩)⟩
  · exact absurd ⟨start.trans loaded, dirty, holds _ (.inl rfl)⟩ outside

end

end

end Mirrored

/-! ## Whole sequences -/

/-- The volume holds the plain array `table`. -/
structure Tracks (agree : Nat → Prop) (table : Nat → Nat)
    (limit numFats : Nat) (v : Volume) : Prop where
  mirrored : Mirrored agree v
  fats : v.numFats = numFats
  reliable : FatReliable v
  covers : ∀ cluster < limit, v.Covers cluster
  entries : ∀ cluster < limit, v.entry cluster = table cluster

namespace Tracks

variable {agree : Nat → Prop} {table : Nat → Nat} {limit numFats : Nat} {v : Volume}

section

variable (tracks : Tracks agree table limit numFats v)
include tracks

theorem fatRead (below : cluster < limit) : (fatRead v cluster).1 = table cluster % fatMask := by
  have covered := tracks.covers cluster below
  have read := (fatRead_spec tracks.mirrored.coherent tracks.reliable covered).1
  rw [read, ← tracks.entries cluster below]
  exact if_pos covered

theorem load (below : cluster < limit)
    : Tracks agree table limit numFats (fatCacheLoad v cluster).2 := by
  have covered := tracks.covers cluster below
  have coherent := tracks.mirrored.coherent
  obtain ⟨_, kept, _⟩ := fatCacheLoad_spec coherent tracks.reliable covered
  have entries : ∀ other, v.Covers other → _ := fun _ =>
    fatCacheLoad_entry coherent tracks.reliable cluster
  refine ⟨tracks.mirrored.load tracks.reliable covered,
    kept.fats.trans tracks.fats, kept.reliable tracks.reliable, fun other belowOther =>
      (kept.covers other).mpr (tracks.covers other belowOther),
    fun other belowOther => ?_⟩
  exact (entries other (tracks.covers other belowOther)).trans (tracks.entries other belowOther)

theorem flush : Tracks agree table limit numFats (fatFlush v) := by
  have flushed := fatFlush_flushed tracks.mirrored.coherent tracks.reliable
  refine ⟨tracks.mirrored.flush tracks.reliable,
    flushed.fats.trans tracks.fats, flushed.reliable tracks.reliable, fun other belowOther =>
      (flushed.covers other).mpr (tracks.covers other belowOther),
    fun other belowOther => ?_⟩
  exact (flushed.entry (tracks.covers other belowOther)).trans (tracks.entries other belowOther)

theorem write (below : cluster < limit) (value : Nat) :
    Tracks (fun other => agree other ∨ other = cluster)
      (record table (.write cluster value)) limit numFats (fatWrite v cluster value).2 := by
  have covered := tracks.covers cluster below
  have coherent := tracks.mirrored.coherent
  have kept := (fatWrite_spec coherent tracks.reliable covered value).1.toKept
  have entries : ∀ other, v.Covers other → _ := fun _ =>
    fatWrite_entry coherent tracks.reliable covered value
  refine ⟨tracks.mirrored.write tracks.reliable covered value,
    kept.fats.trans tracks.fats, kept.reliable tracks.reliable, fun other belowOther =>
      (kept.covers other).mpr (tracks.covers other belowOther),
    fun other belowOther => ?_⟩
  refine (entries other (tracks.covers other belowOther)).trans ?_
  by_cases here : other = cluster
  · subst here
    rw [update_self, record, update_self]
    rw [← tracks.entries other below]
  · rw [update_of_ne here, record, update_of_ne here]
    exact tracks.entries other belowOther

theorem perform {op : Op} (below : op.Below limit) : Tracks (fun cluster =>
    agree cluster ∨ Written [op] cluster) (record table op) limit numFats (perform v op) := by
  have widen : ∀ {small large : Nat → Prop} {table : Nat → Nat} {v : Volume},
      (∀ cluster, large cluster → small cluster) →
      Tracks small table limit numFats v → Tracks large table limit numFats v := by
    intro small large table v included kept
    exact { kept with
      mirrored := ⟨kept.mirrored.coherent, fun two cluster covered agreed =>
        kept.mirrored.copies two cluster covered (included cluster agreed)⟩ }
  cases op with
  | read =>
    refine @widen agree _ _ _ (fun other agreed => ?_) ?_
    · simpa [Written] using agreed
    have loaded := tracks.load below
    unfold FatCoherence.perform Fs.fatRead
    dsimp only
    split <;> exact loaded
  | write _ value =>
    refine widen (fun other agreed => ?_) (tracks.write below value)
    simpa [Written] using agreed
  | flush =>
    refine @widen agree _ _ _ (fun other agreed => ?_) tracks.flush
    simpa [Written] using agreed

theorem run (ops : List Op) (below : ∀ op ∈ ops, op.Below limit) :
    Tracks (fun cluster => agree cluster ∨ Written ops cluster)
      (ops.foldl record table) limit numFats (ops.foldl FatCoherence.perform v) := by
  induction ops generalizing agree table v with
  | nil => simpa [Written] using tracks
  | cons op rest ih =>
    have next := ih (tracks.perform (below op List.mem_cons_self))
      fun other member => below other (List.mem_cons_of_mem op member)
    have same : (fun cluster => (agree cluster ∨ Written [op] cluster) ∨ Written rest cluster) =
          fun cluster => agree cluster ∨ Written (op :: rest) cluster := by
      funext cluster
      simp [Written, exists_or, or_assoc]
    rwa [same] at next

end

end Tracks

/-- A table just mounted: no window is in cache. -/
structure Fresh (v : Volume) : Prop where
  empty : v.fatCacheStart = none
  clean : v.fatCacheDirty = false

theorem Fresh.tracks {v : Volume} (fresh : Fresh v) (reliable : FatReliable v)
    {limit : Nat} (covers : ∀ cluster < limit, v.Covers cluster) :
    Tracks (fun cluster => v.fatCopy cluster = v.fat cluster) v.fat limit v.numFats v where
  mirrored := by
    refine ⟨⟨?_, ?_, ?_, ?_⟩, fun _ _ _ agreed _ => agreed⟩
    · exact fun _ => fresh.clean
    · intro dirty
      exact absurd (fresh.clean.symm.trans dirty) (by decide)
    · intro window here
      exact absurd (fresh.empty.symm.trans here) (by simp)
    · intro cluster _ here
      exact absurd (fresh.empty.symm.trans here) (by simp)
  fats := rfl
  reliable := reliable
  covers := covers
  entries := by
    intro cluster _
    rw [Volume.entry, fresh.empty, if_neg (by simp)]

/-- After any sequence of calls a read returns what the plain array holds, and a
flush brings the array to the first copy on disk, upper bits included, and to
the second in every entry that was written or in which the copies agreed. -/
theorem fat_plain_array (v : Volume) (ops : List Op) (fresh : Fresh v) (reliable : FatReliable v)
    (covers : ∀ cluster < v.totalClusters + 2, v.Covers cluster)
    (below : ∀ op ∈ ops, op.Below (v.totalClusters + 2)) : ∀ cluster < v.totalClusters + 2,
    (fatRead (ops.foldl perform v) cluster).1 = ops.foldl record v.fat cluster % fatMask ∧
      (fatFlush (ops.foldl perform v)).fat cluster = ops.foldl record v.fat cluster ∧
      (1 < v.numFats → v.fatCopy cluster = v.fat cluster ∨ Written ops cluster →
        (fatFlush (ops.foldl perform v)).fatCopy cluster = ops.foldl record v.fat cluster) := by
  intro cluster inside
  have tracks := (fresh.tracks reliable covers).run ops below
  have covered := tracks.covers cluster inside
  have entry := tracks.entries cluster inside
  have flushed := fatFlush_flushed tracks.mirrored.coherent tracks.reliable
  refine ⟨tracks.fatRead inside, (flushed.stored cluster covered).trans entry, fun two agreed => ?_⟩
  rw [← tracks.fats] at two
  rw [← entry]
  exact tracks.mirrored.copied tracks.reliable two covered agreed

/-- A volume of 20000 clusters, whose table takes two windows; the entries of
the second copy are `copy`. -/
def mounted (copy : Nat) : Volume where
  sectorsPerCluster := 8
  fatSizeSectors := 157
  totalClusters := 20000
  numFats := 2
  rootCluster := 2
  fat := fun _ => 0xA0000000
  fatCopy := fun _ => copy
  fatCacheStart := none
  fatCache := fun _ => 0
  fatCacheDirty := false
  fatDirtyLo := 0
  fatDirtyHi := 0
  nextFreeHint := 2
  data := fun _ _ => 0
  slots := fun _ => []
  outcome := fun _ _ => true
  writes := fun _ => 0

theorem mounted_covers (copy cluster : Nat) (inside : cluster < (mounted copy).totalClusters + 2) :
    (mounted copy).Covers cluster := by
  change cluster < 20002 at inside
  change cluster / 128 < 157
  omega

/-- Two entries in different windows are written. -/
def twoWindows : List Op := [.write 5 0x12345678, .write 16400 7, .read 5]

/-- Both come to both copies, with their upper four bits. -/
theorem fat_plain_array_windows :
    (fatRead (twoWindows.foldl perform (mounted 0xA0000000)) 5).1 = 0x02345678 ∧
    (fatFlush (twoWindows.foldl perform (mounted 0xA0000000))).fat 5 = 0xA2345678 ∧
    (fatFlush (twoWindows.foldl perform (mounted 0xA0000000))).fatCopy 16400 = 0xA0000007 := by
  have below : ∀ op ∈ twoWindows, op.Below ((mounted 0xA0000000).totalClusters + 2) := by
    simp [twoWindows, Op.Below, mounted]
  have holds := fat_plain_array (mounted 0xA0000000) twoWindows ⟨rfl, rfl⟩
    (fun _ => rfl) (mounted_covers _) below
  obtain ⟨read, first, _⟩ := holds 5 (by decide)
  obtain ⟨_, _, second⟩ := holds 16400 (by decide)
  refine ⟨read.trans (by decide), first.trans (by decide), ?_⟩
  exact (second (by decide) (.inl rfl)).trans (by decide)

/-- Where the copies differed, a flush leaves the second as it was in the sectors
nobody wrote to. -/
theorem fat_plain_array_copies : ∃ (v : Volume) (ops : List Op),
    Fresh v ∧ FatReliable v ∧ 1 < v.numFats ∧ (∀ cluster < v.totalClusters + 2, v.Covers cluster) ∧
      (∀ op ∈ ops, op.Below (v.totalClusters + 2)) ∧ ∃ cluster < v.totalClusters + 2,
      (fatFlush (ops.foldl perform v)).fatCopy cluster ≠ ops.foldl record v.fat cluster := by
  refine ⟨mounted 9, [.write 5 7], ⟨rfl, rfl⟩, fun _ => rfl, by decide, mounted_covers 9,
    ?_, 200, by decide, by decide⟩
  simp [Op.Below, mounted]

end MainDob.Proofs.FatCoherence
