/-
Purpose: The cluster cache is transparent. A slot holds what the disk holds at its cluster, and no
  cluster has two slots; so a read gives the bytes written last, as long as no two clusters share
  sectors.
Main exports: Coherent, cluster_cache_transparent, apart_of_inVolume
-/
import MainDob.Lib.Machines
import MainDob.Fs.ClusterCache

namespace MainDob.Fs.ClusterCache

open Function

variable {fs : Geometry}

/-! ### Two clusters on the disk -/

/-- Two clusters without a common sector. -/
def Apart (fs : Geometry) (c d : UInt32) : Prop :=
  clusterToLba fs c + fs.sectors ≤ clusterToLba fs d ∨
    clusterToLba fs d + fs.sectors ≤ clusterToLba fs c

theorem bytes_eq : fs.bytes = fs.sectors * sectorSize := by
  unfold Geometry.bytes
  rfl

theorem sector_lt (i : Fin fs.bytes) : i / sectorSize < fs.sectors :=
  Nat.div_lt_of_lt_mul (Nat.mul_comm .. ▸ (bytes_eq : fs.bytes = _) ▸ i.isLt)

theorem diskRead_diskWrite (disk : Nat → Sector) (c : UInt32) (buf : fs.Cluster) :
    diskRead (diskWrite disk c buf) c = buf := by
  funext i
  have same : (clusterToLba fs c + i / sectorSize - clusterToLba fs c) * sectorSize +
      i % sectorSize = i := by
    rw [Nat.add_sub_cancel_left, Nat.div_add_mod']
  have inside : (clusterToLba fs c + i / sectorSize - clusterToLba fs c) * sectorSize +
      i % sectorSize < fs.bytes := same.symm ▸ i.isLt
  unfold diskRead diskWrite
  rw [dif_pos ⟨Nat.le_add_right .., Nat.mod_lt _ (by decide), inside⟩]
  exact congrArg buf (Fin.ext same)

theorem diskRead_diskWrite_apart {c d : UInt32} (apart : Apart fs c d) (disk : Nat → Sector)
    (buf : fs.Cluster) : (diskRead (diskWrite disk c buf) d : fs.Cluster) = diskRead disk d := by
  funext i
  have low := sector_lt i
  refine dif_neg ?_
  rintro ⟨from_c, _, within⟩
  have below : clusterToLba fs d + i / sectorSize - clusterToLba fs c < fs.sectors :=
    Nat.lt_of_mul_lt_mul_right
      (lt_of_le_of_lt (Nat.le_add_right ..) (Nat.lt_of_lt_of_eq within bytes_eq))
  generalize i.val / sectorSize = sector at low from_c below
  rcases apart with before | after <;> omega

/-! ### The slots -/

/-- The disk and the slots agree with the bytes of the clusters in use, and no cluster has two
slots. -/
structure Coherent (s : State fs) (mem : UInt32 → fs.Cluster) (used : UInt32 → Prop) : Prop where
  disk : ∀ c, used c → diskRead s.disk c = mem c
  cached : ∀ i, (s.slots i).cluster ≠ 0 →
    used (s.slots i).cluster ∧ (s.slots i).data = mem (s.slots i).cluster
  once : ∀ i j, (s.slots i).cluster ≠ 0 → (s.slots i).cluster = (s.slots j).cluster → i = j

variable {s : State fs} {mem : UInt32 → fs.Cluster} {used : UInt32 → Prop} {c : UInt32}

theorem slotOf_some {i : Fin clusterCacheSlots} (found : slotOf s.slots c = some i) :
    (s.slots i).cluster = c := by
  have same := List.find?_some found
  exact of_decide_eq_true same

theorem slotOf_none (missing : slotOf s.slots c = none) (i : Fin clusterCacheSlots) :
    (s.slots i).cluster ≠ c := fun same =>
  List.find?_eq_none.mp missing i (List.mem_finRange i) (decide_eq_true same)

theorem Coherent.setSlot (coherent : Coherent s mem used) (i : Fin clusterCacheSlots)
    (slot : ClusterSlot fs) (fresh : slot.cluster ≠ 0 → used slot.cluster ∧
      slot.data = mem slot.cluster ∧ ∀ j, j ≠ i → (s.slots j).cluster ≠ slot.cluster)
    (clock : UInt32) : Coherent ⟨update s.slots i slot, clock, s.disk⟩ mem used := by
  have others : ∀ {j}, j ≠ i → update s.slots i slot j = s.slots j := fun other =>
    update_of_ne other ..
  have own : update s.slots i slot i = slot := update_self ..
  constructor
  · exact coherent.disk
  · intro j some
    dsimp only at some ⊢
    by_cases here : j = i
    · rw [here, own] at some ⊢
      exact ⟨(fresh some).1, (fresh some).2.1⟩
    · rw [others here] at some ⊢
      exact coherent.cached j some
  · intro j k some same
    dsimp only at some same
    by_cases here : j = i <;> by_cases there : k = i
    · rw [here, there]
    · rw [here, own] at some same
      rw [others there] at same
      exact absurd same.symm ((fresh some).2.2 k there)
    · rw [there, own, others here] at same
      rw [others here] at some
      exact absurd same ((fresh (same ▸ some)).2.2 j here)
    · rw [others here] at some same
      rw [others there] at same
      exact coherent.once j k some same

theorem Coherent.others (coherent : Coherent s mem used) {i : Fin clusterCacheSlots}
    (some : (s.slots i).cluster ≠ 0) :
    ∀ j, j ≠ i → (s.slots j).cluster ≠ (s.slots i).cluster := fun _ other same =>
  other (coherent.once _ _ some same.symm).symm

theorem not_zero (low : ¬ c < 2) : c ≠ 0 := by
  rintro rfl
  exact low (by decide)

section

variable (coherent : Coherent s mem used)
include coherent

theorem Coherent.read (low : ¬ c < 2) (mine : used c) :
    (readCluster s c).1 = some (mem c) ∧ Coherent (readCluster s c).2 mem used := by
  unfold readCluster
  rw [if_neg low]
  cases found : slotOf s.slots c with
  | some i =>
    have here := slotOf_some found
    have some : (s.slots i).cluster ≠ 0 := here ▸ not_zero low
    obtain ⟨inUse, data⟩ := coherent.cached i some
    refine ⟨by rw [← here, ← data], coherent.setSlot _ _ (fun _ => ?_) _⟩
    exact ⟨inUse, data, coherent.others some⟩
  | none =>
    have disk := coherent.disk c mine
    dsimp only
    split
    · refine ⟨congrArg some disk, coherent.setSlot _ _ (fun _ => ?_) _⟩
      exact ⟨mine, disk, fun j _ => slotOf_none found j⟩
    · exact ⟨congrArg some disk, coherent⟩

theorem Coherent.invalidate (c : UInt32) : Coherent (clusterCacheInvalidate s c) mem used := by
  unfold clusterCacheInvalidate
  cases slotOf s.slots c with
  | some i => exact coherent.setSlot _ _ (fun some => absurd rfl some) s.clock
  | none => exact coherent

theorem Coherent.diskWrite (mine : used c) (apart : ∀ c d, used c → used d → c ≠ d → Apart fs c d)
    (buf : fs.Cluster) (none : ∀ i, (s.slots i).cluster ≠ 0 → (s.slots i).cluster ≠ c) :
    Coherent { s with disk := diskWrite s.disk c buf } (update mem c buf) used where
  disk d inUse := by
    by_cases same : d = c
    · rw [same, update_self]
      exact diskRead_diskWrite s.disk c buf
    · rw [update_of_ne same, ← coherent.disk d inUse]
      exact diskRead_diskWrite_apart (apart c d mine inUse (Ne.symm same)) s.disk buf
  cached i some := by
    rw [update_of_ne (none i some)]
    exact coherent.cached i some
  once := coherent.once

theorem Coherent.dropped (i : Fin clusterCacheSlots)
    (here : slotOf s.slots c = some i) (j : Fin clusterCacheSlots)
    (some : (update s.slots i { s.slots i with cluster := 0 } j).cluster ≠ 0) :
    (update s.slots i { s.slots i with cluster := 0 } j).cluster ≠ c := by
  have mine := slotOf_some here
  by_cases same : j = i
  · rw [same, update_self] at some
    exact absurd rfl some
  · rw [update_of_ne same] at some ⊢
    rintro other
    exact same (coherent.once j i some (other.trans mine.symm))

theorem Coherent.write (low : ¬ c < 2) (mine : used c) (apart : ∀ c d, used c →
    used d → c ≠ d → Apart fs c d) (buf : fs.Cluster) : (writeCluster s c buf).1 = true ∧
      Coherent (writeCluster s c buf).2 (update mem c buf) used := by
  unfold writeCluster
  rw [if_neg low]
  cases found : slotOf s.slots c with
  | none =>
    exact ⟨rfl, coherent.diskWrite mine apart buf fun i _ => slotOf_none found i⟩
  | some i =>
    -- first the slot is emptied, then the sectors are written, then the slot is filled
    have emptied := coherent.setSlot i { s.slots i with cluster := 0 }
      (fun some => absurd rfl some) s.clock
    have written := emptied.diskWrite mine apart buf (coherent.dropped i found)
    refine ⟨rfl, ?_⟩
    have filled := written.setSlot i (if fs.bytes ≤ clusterCacheBytes then ⟨c, s.clock + 1, buf⟩
      else { s.slots i with cluster := 0, lru := s.clock + 1 }) ?_ (s.clock + 1)
    · dsimp only at filled
      rwa [update_idem] at filled
    · split
      · refine fun _ => ⟨mine, (update_self c buf mem).symm, fun j other same => ?_⟩
        refine coherent.dropped i found j ?_ same
        exact same ▸ not_zero low
      · exact fun some => absurd rfl some

theorem Coherent.fill (mine : used c) (apart : ∀ c d, used c → used d → c ≠ d → Apart fs c d)
    (buf : fs.Cluster) : Coherent (writeDirect s c buf) (update mem c buf) used := by
  unfold writeDirect clusterCacheInvalidate
  cases found : slotOf s.slots c with
  | none => exact coherent.diskWrite mine apart buf fun i _ => slotOf_none found i
  | some i =>
    have emptied := coherent.setSlot i { s.slots i with cluster := 0 }
      (fun some => absurd rfl some) s.clock
    exact emptied.diskWrite mine apart buf (coherent.dropped i found)

end

/-! ### Sequences of calls -/

inductive Op (fs : Geometry) where
  | read (cluster : UInt32)
  | write (cluster : UInt32) (buf : fs.Cluster)
  | fill (cluster : UInt32) (buf : fs.Cluster)
  | invalidate (cluster : UInt32)

/-- The cluster whose sectors an operation reads or writes. -/
def Op.touched : Op fs → Option UInt32
  | .read c | .write c _ => if c < 2 then none else some c
  | .fill c _ => some c
  | .invalidate _ => none

inductive Outcome (fs : Geometry) where
  | data (bytes : Option fs.Cluster)
  | written (ok : Bool)
  | nothing

/-- An operation on the server. -/
def step (s : State fs) : Op fs → Outcome fs × State fs
  | .read c => (.data (readCluster s c).1, (readCluster s c).2)
  | .write c buf => (.written (writeCluster s c buf).1, (writeCluster s c buf).2)
  | .fill c buf => (.nothing, writeDirect s c buf)
  | .invalidate c => (.nothing, clusterCacheInvalidate s c)

/-- The same operation where every cluster just has its bytes. -/
def plainStep (mem : UInt32 → fs.Cluster) : Op fs → Outcome fs × (UInt32 → fs.Cluster)
  | .read c => (.data (if c < 2 then none else some (mem c)), mem)
  | .write c buf =>
    if c < 2 then (.written false, mem) else (.written true, update mem c buf)
  | .fill c buf => (.nothing, update mem c buf)
  | .invalidate _ => (.nothing, mem)

theorem Coherent.step (coherent : Coherent s mem used) (apart : ∀ c d, used c →
    used d → c ≠ d → Apart fs c d) {op : Op fs} (uses : ∀ c ∈ op.touched, used c) :
    (step s op).1 = (plainStep mem op).1 ∧ Coherent (step s op).2 (plainStep mem op).2 used := by
  cases op with
  | read c =>
    by_cases low : c < 2
    · simp only [ClusterCache.step, plainStep, readCluster, if_pos low]
      exact ⟨trivial, coherent⟩
    · obtain ⟨data, after⟩ := coherent.read low (uses c (if_neg low))
      simp only [ClusterCache.step, plainStep, if_neg low]
      exact ⟨congrArg _ data, after⟩
  | write c buf =>
    by_cases low : c < 2
    · simp only [ClusterCache.step, plainStep, writeCluster, if_pos low]
      exact ⟨trivial, coherent⟩
    · obtain ⟨ok, after⟩ := coherent.write low (uses c (if_neg low)) apart buf
      simp only [ClusterCache.step, plainStep, if_neg low]
      exact ⟨congrArg _ ok, after⟩
  | fill c buf => exact ⟨rfl, coherent.fill (uses c rfl) apart buf⟩
  | invalidate c => exact ⟨rfl, coherent.invalidate c⟩

theorem coherent_reset (s : State fs) (used : UInt32 → Prop) :
    Coherent (clusterCacheReset s) (diskRead s.disk) used where
  disk _ _ := rfl
  cached _ some := absurd rfl some
  once _ _ some := absurd rfl some

/-! ### The clusters of a volume -/

/-- The numbers of a cluster's sectors have 32 bits. -/
def InVolume (fs : Geometry) (c : UInt32) : Prop :=
  2 ≤ c ∧ fs.dataStartLba.toNat + (c.toNat - 1) * fs.sectors + fs.partitionLba.toNat ≤ 2 ^ 32

theorem clusterToLba_inVolume {c : UInt32} (inside : InVolume fs c) (some : 0 < fs.sectors) :
    clusterToLba fs c =
      fs.dataStartLba.toNat + (c.toNat - 2) * fs.sectors + fs.partitionLba.toNat := by
  obtain ⟨low, high⟩ := inside
  have two : 2 ≤ c.toNat := UInt32.le_iff_toNat_le.mp low
  have first : (c.toNat - 1) * fs.sectors = (c.toNat - 2) * fs.sectors + fs.sectors := by
    rw [← Nat.succ_mul]
    congr 1
    omega
  have index : (c - 2).toNat = c.toNat - 2 := UInt32.toNat_sub_of_le _ _ low
  have size : fs.sectorsPerCluster.toUInt32.toNat = fs.sectors := rfl
  have product : ((c - 2) * fs.sectorsPerCluster.toUInt32).toNat = (c.toNat - 2) * fs.sectors := by
    rw [UInt32.toNat_mul, index, size]
    exact Nat.mod_eq_of_lt (by omega)
  rw [clusterToLba, UInt32.toNat_add, UInt32.toNat_add, product, Nat.mod_add_mod]
  exact Nat.mod_eq_of_lt (by omega)

theorem apart_of_inVolume {c d : UInt32} (some : 0 < fs.sectors) (one : InVolume fs c)
    (two : InVolume fs d) (other : c ≠ d) : Apart fs c d := by
  have least : 2 ≤ c.toNat ∧ 2 ≤ d.toNat :=
    ⟨UInt32.le_iff_toNat_le.mp one.1, UInt32.le_iff_toNat_le.mp two.1⟩
  have step : ∀ {a b : Nat}, a < b → a * fs.sectors + fs.sectors ≤ b * fs.sectors := fun below =>
    Nat.succ_mul .. ▸ Nat.mul_le_mul_right _ below
  unfold Apart
  rw [clusterToLba_inVolume one some, clusterToLba_inVolume two some]
  rcases Nat.lt_or_gt_of_ne (mt UInt32.toNat_inj.mp other) with below | above
  · have := step (a := c.toNat - 2) (b := d.toNat - 2) (by omega)
    omega
  · have := step (a := d.toNat - 2) (b := c.toNat - 2) (by omega)
    omega

/-- No two clusters that the operations use share a sector. -/
def NoShared (ops : List (Op fs)) : Prop :=
  ∀ one ∈ ops, ∀ two ∈ ops, ∀ c ∈ one.touched, ∀ d ∈ two.touched, c ≠ d → Apart fs c d

theorem noShared_of_inVolume {ops : List (Op fs)} (some : 0 < fs.sectors)
    (inside : ∀ op ∈ ops, ∀ c ∈ op.touched, InVolume fs c) : NoShared ops :=
  fun one first two second c uses d uses' =>
    apart_of_inVolume some (inside one first c uses) (inside two second d uses')

/-! ### Every sequence of operations -/

/-- A read gives the bytes written last, whatever slots the clusters meet in. -/
theorem cluster_cache_transparent (s : State fs) (ops : List (Op fs)) (apart : NoShared ops) :
    (Lib.answers step (clusterCacheReset s) ops).1 =
      (Lib.answers plainStep (diskRead s.disk) ops).1 := by
  let used := fun c => ∃ op ∈ ops, c ∈ op.touched
  refine (Lib.answers_same step plainStep (fun s mem => Coherent s mem used) ?_
    (coherent_reset s used)).1
  intro s mem coherent op member
  refine coherent.step ?_ fun c uses => ⟨op, member, uses⟩
  rintro c d ⟨one, first, uses⟩ ⟨two, second, uses'⟩ other
  exact apart one first two second c uses d uses' other

/-- A volume of the largest clusters. -/
def large : Geometry := ⟨63, 16416, 128⟩

/-- The server after a mount, before anything is cached. -/
def mounted (fs : Geometry) : State fs := ⟨fun _ => ⟨0, 0, fun _ => 0⟩, 0, fun _ => zeroSector⟩

theorem cluster_cache_transparent_large :
    let ops : List (Op large) := [.write 2 fun _ => 1, .read 3, .fill 3 fun _ => 0, .read 2]
    (Lib.answers step (clusterCacheReset (mounted large)) ops).1 =
      (Lib.answers plainStep (diskRead (mounted large).disk) ops).1 := by
  refine cluster_cache_transparent (mounted large) _ (noShared_of_inVolume (by decide) ?_)
  intro op member c uses
  have known : op.touched = some 2 ∨ op.touched = some 3 := by
    simp only [List.mem_cons, List.not_mem_nil, or_false] at member
    rcases member with rfl | rfl | rfl | rfl
    · exact .inl rfl
    · exact .inr rfl
    · exact .inr rfl
    · exact .inl rfl
  rcases known with known | known
  · cases known.symm.trans uses
    exact ⟨by decide, by decide⟩
  · cases known.symm.trans uses
    exact ⟨by decide, by decide⟩

theorem large_bytes : 0 < large.bytes := by decide +kernel

/-- The first byte of an answer. -/
def Outcome.head : Outcome large → Option UInt8
  | .data (some bytes) => some (bytes ⟨0, large_bytes⟩)
  | _ => none

/-- A cluster past the volume, 2^25 further on, has the sectors of the first one. -/
theorem cluster_cache_wraps :
    let ops : List (Op large) := [.write 2 fun _ => 1, .write 33554434 fun _ => 2, .read 2]
    (Lib.answers step (clusterCacheReset (mounted large)) ops).1 ≠
      (Lib.answers plainStep (diskRead (mounted large).disk) ops).1 := by
  intro ops same
  have heads := congrArg (List.map Outcome.head) same
  exact absurd heads (by decide +kernel)

end MainDob.Fs.ClusterCache
