/-
Purpose: What `fat_alloc_batch` and `fat_alloc_cluster` do to a FAT: they take
  free clusters in the order of the search, link them behind the one they are
  given, and return fewer than asked only when none is free any more, as long as
  the search reads no cluster without an entry.
Main exports: Allocates, SearchStays, cluster_allocation
-/
import MainDob.Proofs.ChainWalks

namespace MainDob.Fs

open List

/-- What an allocation is to do to the table: the clusters `new` were free, they
are one chain behind `prev`, no other entry changes, and there are fewer than
asked only if no cluster is free any more. -/
structure Allocates (v v' : Volume) (prev count : Nat) (new : List Nat) :
    Prop where
  free : ∀ cluster ∈ new, 2 ≤ cluster ∧ cluster < v.limit ∧ v.table cluster = fat32Free
  distinct : new.Nodup
  others : ∀ cluster, cluster ∉ new → cluster ≠ prev → v'.table cluster = v.table cluster
  chain : Chain v'.table v'.limit new
  attached : 2 ≤ prev → v'.table prev = new.head?.getD (v.table prev)
  few : new.length ≤ count
  short : new.length < count → ∀ cluster, 2 ≤ cluster → cluster < v.limit →
    v'.table cluster ≠ fat32Free

/-- The free clusters among the candidates, in their order. -/
def freeAmong (table : Nat → Nat) (candidates : List Nat) : List Nat :=
  candidates.filter fun cluster => table cluster = fat32Free

/-- The search for `count` clusters reads none that has no entry but lies in the
last window, and takes none with a number that an entry cannot hold. -/
def SearchStays (v : Volume) (count : Nat) : Prop :=
  ∀ seen cluster rest, searchOrder v = seen ++ cluster :: rest →
    (freeAmong v.table seen).length < count →
    ¬ v.Gap cluster ∧ (v.table cluster = fat32Free → cluster < fat32Bad)

/-- A predecessor is the end of a chain: its entry is not free. -/
def Predecessor (v : Volume) (prev : Nat) : Prop :=
  2 ≤ prev → v.Covers prev ∧ v.table prev ≠ fat32Free

/-- `fat_alloc_batch` does what an allocation is to do. -/
def BatchAllocates (v : Volume) (prev count : Nat) : Prop :=
  ∃ new, Allocates v (fatAllocBatch v prev count).2 prev count new ∧
    (fatAllocBatch v prev count).1 = ⟨new.head?.getD 0, new.getLast?.getD prev, new.length⟩

/-- `fat_alloc_cluster` does what an allocation of one cluster is to do. -/
def ClusterAllocates (v : Volume) (prev : Nat) : Prop :=
  ∃ new, Allocates v (fatAllocCluster v prev).2 prev 1 new ∧
    (fatAllocCluster v prev).1 = new.head?.getD 0

variable {v u : Volume} {prev count : Nat} {seen rest : List Nat} {batch : Batch}

/-! ### The search -/

/-- How far an allocation is: of the clusters `seen` in the order of the search,
those that were free are linked behind `prev`. -/
structure Searched (v : Volume) (prev count : Nat) (seen rest : List Nat) (u : Volume)
    (batch : Batch) : Prop extends Shape v u where
  order : searchOrder v = seen ++ rest
  coherent : Coherent u
  table : u.table = linkAll v.table prev (freeAmong v.table seen)
  small : ∀ cluster ∈ freeAmong v.table seen, cluster < fat32Bad
  few : (freeAmong v.table seen).length ≤ count
  batch : batch = ⟨(freeAmong v.table seen).head?.getD 0, (freeAmong v.table seen).getLast?.getD prev,
    (freeAmong v.table seen).length⟩

namespace Searched

section

variable (searched : Searched v prev count seen rest u batch)
include searched

theorem distinct : seen.Nodup := by
  have all := (searchOrder_spec v).1
  rw [searched.order] at all
  exact (nodup_append.mp all).1

theorem free {cluster : Nat} (member : cluster ∈ freeAmong v.table seen) :
    2 ≤ cluster ∧ cluster < v.limit ∧ v.table cluster = fat32Free := by
  obtain ⟨among, free⟩ := mem_filter.mp member
  obtain ⟨least, bound⟩ := ((searchOrder_spec v).2 cluster).mp
    (searched.order ▸ mem_append_left rest among)
  exact ⟨least, bound, of_decide_eq_true free⟩

theorem still {cluster : Nat} (pred : Predecessor v prev) (least : 2 ≤ cluster)
    (outside : cluster ∉ freeAmong v.table seen) :
    u.table cluster = fat32Free ↔ v.table cluster = fat32Free := by
  rw [searched.table]
  exact linkAll_free outside least (fun least => (pred least).2)
    fun _ member => (searched.free member).1

/-- The search is through, or has as many clusters as are asked for. -/
theorem allocates (pred : Predecessor v prev) (ended : batch.allocated < count → rest = []) :
    Allocates v u prev count (freeAmong v.table seen) := by
  have apart : prev ∉ freeAmong v.table seen := fun member =>
    (pred (searched.free member).1).2 (searched.free member).2.2
  have chain : Chain u.table u.limit (freeAmong v.table seen) := by
    rw [searched.table, searched.toShape.limit]
    refine linkAll_chain (searched.distinct.filter _) apart fun cluster member => ?_
    obtain ⟨least, bound, _⟩ := searched.free member
    exact ⟨least, bound, (cluster_value (searched.small cluster member)).2⟩
  refine ⟨fun _ => searched.free, searched.distinct.filter _, fun cluster outside other => ?_, chain,
    fun least => ?_, searched.few, fun less cluster least bound => ?_⟩
  · rw [searched.table]
    exact linkAll_outside outside other
  · rw [searched.table]
    cases first : (freeAmong v.table seen).head? with
    | none => rw [List.head?_eq_none_iff.mp first]; rfl
    | some => exact linkAll_last first least apart
  · by_cases member : cluster ∈ freeAmong v.table seen
    · exact chain.not_free member
    rw [Ne, searched.still pred least member]
    intro unused
    rw [searched.batch] at ended
    have among := ((searchOrder_spec v).2 cluster).mpr ⟨least, bound⟩
    rw [searched.order, ended less, append_nil] at among
    exact member (mem_filter.mpr ⟨among, decide_eq_true unused⟩)

end

variable {cluster : Nat} (searched : Searched v prev count seen (cluster :: rest) u batch)
  (tidy : Fat.Tidy v) (pred : Predecessor v prev) (stays : SearchStays v count)
  (more : batch.allocated < count)
include searched tidy pred stays more

/-- The search reads of the next cluster whether it was free. -/
theorem read : ((fatRead u cluster).1 = fat32Free ↔ v.table cluster = fat32Free) ∧
    Seen u (fatRead u cluster).2 ∧ (v.table cluster = fat32Free → cluster < fat32Bad) := by
  rw [searched.batch] at more
  obtain ⟨proper, small⟩ := stays seen cluster rest searched.order more
  obtain ⟨value, same⟩ := fatRead_proper searched.coherent (searched.toShape.reliable tidy.reliable)
    fun gap => proper ((searched.toShape.gap cluster).mp gap)
  have all := (searchOrder_spec v).1
  rw [searched.order] at all
  have fresh : cluster ∉ seen := fun member =>
    (nodup_append.mp all).2.2 cluster member cluster mem_cons_self rfl
  have least := (((searchOrder_spec v).2 cluster).mp
    (searched.order ▸ mem_append_right seen mem_cons_self)).1
  rw [value]
  exact ⟨searched.still pred least fun member => fresh (mem_filter.mp member).1, same, small⟩

theorem pass (used : (fatRead u cluster).1 ≠ fat32Free) :
    Searched v prev count (seen ++ [cluster]) rest (fatRead u cluster).2 batch := by
  obtain ⟨value, same, _⟩ := searched.read tidy pred stays more
  have among : freeAmong v.table (seen ++ [cluster]) = freeAmong v.table seen := by
    simp [freeAmong, mt value.mpr used]
  refine ⟨searched.toShape.trans same.toShape, ?_, same.coherent, ?_, ?_, ?_, ?_⟩
  · rw [searched.order, append_assoc]
    rfl
  all_goals rw [among]
  · rw [same.table, searched.table]
  · exact searched.small
  · exact searched.few
  · exact searched.batch

theorem take (free : (fatRead u cluster).1 = fat32Free) :
    Searched v prev count (seen ++ [cluster]) rest
      (linkCluster (fatRead u cluster).2 batch.last cluster)
      ⟨if batch.firstNew = 0 then cluster else batch.firstNew, cluster, batch.allocated + 1⟩ := by
  obtain ⟨value, same, small⟩ := searched.read tidy pred stays more
  have unused := value.mp free
  have among : freeAmong v.table (seen ++ [cluster]) = freeAmong v.table seen ++ [cluster] := by
    simp [freeAmong, unused]
  have shape := searched.toShape.trans same.toShape
  have covers : ∀ {other : Nat}, v.table other = fat32Free → v.Covers other := fun free =>
    covers_of_goes (by rw [free]; decide)
  have last : 2 ≤ batch.last → v.Covers batch.last := by
    rw [searched.batch]
    cases ends : (freeAmong v.table seen).getLast? with
    | none => exact fun least => (pred least).1
    | some => exact fun _ => covers (searched.free (mem_of_getLast? ends)).2.2
  obtain ⟨linked, table⟩ := linkCluster_spec same.coherent (shape.reliable tidy.reliable)
    ((shape.covers cluster).mpr (covers unused)) (small unused)
    fun least => (shape.covers _).mpr (last least)
  refine ⟨shape.trans linked.toShape, ?_, linked.coherent, ?_, ?_, ?_, ?_⟩
  · rw [searched.order, append_assoc]
    rfl
  all_goals rw [among]
  · rw [table, same.table, searched.table, linkAll_concat, searched.batch]
  · intro other member
    rcases mem_append.mp member with before | here
    · exact searched.small other before
    · rw [mem_singleton.mp here]
      exact small unused
  · rw [searched.batch] at more
    rw [length_append]
    exact more
  · rw [searched.batch]
    cases new : freeAmong v.table seen with
    | nil => rfl
    | cons first =>
      have proper := (searched.free (new ▸ mem_cons_self)).1
      simp [show first ≠ 0 by omega, List.getLast?_cons]

end Searched

/-! ### The allocators -/

theorem findFree_batch (prev : Nat) : ∀ (candidates : List Nat) (v : Volume),
    allocLoop 1 candidates v ⟨0, prev, 0⟩ = (findFree candidates v).1.elim
      (⟨0, prev, 0⟩, (findFree candidates v).2)
      fun cluster => (⟨cluster, cluster, 1⟩, linkCluster (findFree candidates v).2 prev cluster) := by
  intro candidates
  induction candidates with
  | nil => exact fun _ => rfl
  | cons cluster rest ih =>
    intro v
    rw [allocLoop, if_pos Nat.one_pos, findFree]
    dsimp only
    by_cases free : (fatRead v cluster).1 = fat32Free
    · rw [if_neg (not_not.mpr free), if_pos free]
      cases rest <;> rfl
    · rw [if_pos free, if_neg free]
      exact ih _

/-- Where one cluster is asked for, the two allocators do the same. -/
theorem fatAllocCluster_batch (v : Volume) (prev : Nat) :
    (fatAllocCluster v prev).1 = (fatAllocBatch v prev 1).1.firstNew ∧
      (fatAllocCluster v prev).2.table = (fatAllocBatch v prev 1).2.table ∧
      (fatAllocCluster v prev).2.limit = (fatAllocBatch v prev 1).2.limit := by
  unfold fatAllocCluster fatAllocBatch
  rw [findFree_batch]
  obtain ⟨_ | cluster, u⟩ := findFree (searchOrder v) v <;> exact ⟨rfl, rfl, rfl⟩

theorem fatAllocBatch_stays (tidy : Fat.Tidy v) (pred : Predecessor v prev)
    (stays : SearchStays v count) : BatchAllocates v prev count := by
  obtain ⟨rest, ⟨seen, searched⟩, ended⟩ := @allocLoop_keeps count
    (fun rest u batch => ∃ seen, Searched v prev count seen rest u batch)
    (fun start more used => start.elim fun _ searched =>
      ⟨_, searched.pass tidy pred stays more used⟩)
    (fun start more free => start.elim fun _ searched =>
      ⟨_, searched.take tidy pred stays more free⟩)
    (searchOrder v) v ⟨0, prev, 0⟩
    ⟨[], .refl v, rfl, tidy.coherent, rfl, nofun, Nat.zero_le _, rfl⟩
  have allocates := searched.allocates pred ended
  refine ⟨freeAmong v.table seen, ?_, ?_⟩
  · unfold fatAllocBatch
    dsimp only
    split
    · exact { allocates with }
    · exact allocates
  · unfold fatAllocBatch
    exact searched.batch

open Fat (volumeOf volumeOf_tidy)

/-- The FAT of 129 sectors has no entry for cluster 16584.  What is read there is
left over from cluster 200, which is free. -/
def shortFat : Volume :=
  { volumeOf 129 17000 fun _ => 0 with
    fatCacheStart := some 0
    nextFreeHint := 16584 }

end MainDob.Fs
