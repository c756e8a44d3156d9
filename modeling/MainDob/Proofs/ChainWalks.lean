/-
Purpose: Walks of a table that may hold anything. A chain is what following the entries from its
  first cluster finds; an allocation changes no entry that leads on, so the clusters of a chain
  stay where they are and a walk that came to an end still does.
Main exports: clusterAt, EndsIn, Tidy
-/
import MainDob.Fs.Stream
import MainDob.Proofs.ClusterChains
import Mathlib.Data.Fintype.Card

namespace MainDob.Fs.Fat

open Function (update update_of_ne update_self)

/-! ### The chain, as a walk finds it -/

/-- The cluster so many steps from the first one.  The walk ends where the next
entry is an end mark, or no cluster number. -/
def clusterAt (table : Nat → Nat) (first : Nat) : Nat → Option Nat
  | 0 => if first < 2 then none else some first
  | k + 1 =>
    match clusterAt table first k with
    | none => none
    | some cluster =>
      if table cluster < 2 ∨ fatIsEoc (table cluster) = true then none
      else some (table cluster)

/-- Following the entries from the cluster, through those of 0 and 1 as well,
comes to an end mark, and meets no cluster of the gap. -/
def EndsIn (v : Volume) : Nat → Nat → Prop
  | 0, cluster => ¬ v.Gap cluster ∧ fatIsEoc (v.table cluster) = true
  | steps + 1, cluster =>
    ¬ v.Gap cluster ∧ fatIsEoc (v.table cluster) = false ∧ EndsIn v steps (v.table cluster)

variable {v : Volume} {steps cluster : Nat}

theorem EndsIn.proper (ends : EndsIn v steps cluster) : ¬ v.Gap cluster := by
  cases steps with
  | zero | succ => exact ends.1

theorem EndsIn.tail (ends : EndsIn v steps cluster) (goes : fatIsEoc (v.table cluster) = false) :
    ∃ fewer, EndsIn v fewer (v.table cluster) := by
  cases steps with
  | zero => exact absurd (ends.2.symm.trans goes) Bool.noConfusion
  | succ steps => exact ⟨steps, ends.2.2⟩

variable {v' : Volume}

theorem EndsIn.of_same (shape : Shape v v') (table : v'.table = v.table) :
    ∀ {steps cluster : Nat}, EndsIn v steps cluster → EndsIn v' steps cluster := by
  intro steps
  induction steps with
  | zero =>
    rintro cluster ⟨proper, eoc⟩
    exact ⟨fun gap => proper ((shape.gap cluster).mp gap), by rw [table]; exact eoc⟩
  | succ _ ih =>
    rintro cluster ⟨proper, goes, rest⟩
    refine ⟨fun gap => proper ((shape.gap cluster).mp gap), ?_, ?_⟩
    · rw [table]
      exact goes
    · rw [table]
      exact ih rest

theorem EndsIn.unique : ∀ {steps steps' cluster : Nat},
    EndsIn v steps cluster → EndsIn v steps' cluster → steps = steps' := by
  intro steps
  induction steps with
  | zero =>
    intro steps' cluster first second
    cases steps' with
    | zero => rfl
    | succ => exact absurd (first.2.symm.trans second.2.1) Bool.noConfusion
  | succ _ ih =>
    intro steps' cluster first second
    cases steps' with
    | zero => exact absurd (second.2.symm.trans first.2.1) Bool.noConfusion
    | succ => rw [ih first.2.2 second.2.2]

/-- The cluster after so many entries. -/
def hop (table : Nat → Nat) (cluster : Nat) : Nat → Nat
  | 0 => cluster
  | k + 1 => table (hop table cluster k)

theorem EndsIn.onward (ends : EndsIn v steps cluster) : ∀ {k : Nat}, k ≤ steps →
    EndsIn v (steps - k) (hop v.table cluster k) := by
  intro k
  induction k with
  | zero => exact fun _ => ends
  | succ k ih =>
    intro enough
    have here := ih (Nat.le_of_succ_le enough)
    have more : steps - k = (steps - (k + 1)) + 1 := by omega
    rw [more] at here
    exact here.2.2

theorem EndsIn.short (ends : EndsIn v steps cluster) :
    steps ≤ v.fatSizeSectors * entriesPerSector := by
  have inside : ∀ k : Fin steps, hop v.table cluster k < v.fatSizeSectors * entriesPerSector := by
    intro k
    have here := ends.onward (le_of_lt k.isLt)
    have more : steps - k = (steps - k - 1) + 1 := by omega
    rw [more] at here
    exact (Nat.div_lt_iff_lt_mul (by decide)).mp (covers_of_goes here.2.1)
  have apart : Function.Injective fun k : Fin steps =>
      (⟨hop v.table cluster k, inside k⟩ : Fin (v.fatSizeSectors * entriesPerSector)) := by
    intro i j same
    have here := ends.onward (le_of_lt i.isLt)
    have there := ends.onward (le_of_lt j.isLt)
    have equal := congrArg Fin.val same
    dsimp only at equal
    rw [equal] at here
    have rest := here.unique there
    exact Fin.ext (by omega)
  have := Fintype.card_le_of_injective _ apart
  simpa using this

/-! ### Walks -/

variable {table : Nat → Nat} {first : Nat}

theorem clusterAt_least : ∀ {k cluster : Nat},
    clusterAt table first k = some cluster → 2 ≤ cluster := by
  intro k cluster here
  cases k with
  | zero =>
    unfold clusterAt at here
    split at here
    · cases here
    · cases here
      omega
  | succ =>
    unfold clusterAt at here
    split at here
    · cases here
    split at here
    · cases here
    · cases here
      omega

theorem clusterAt_next {k : Nat} (here : clusterAt table first k = some cluster) :

    clusterAt table first (k + 1) = if table cluster < 2 ∨ fatIsEoc (table cluster) = true then none
      else some (table cluster) := by
  rw [clusterAt, here]

theorem clusterAt_none {k : Nat} (ended : clusterAt table first k = none) (more : Nat) :
    clusterAt table first (k + more) = none := by
  induction more with
  | zero => exact ended
  | succ _ ih => rw [← add_assoc, clusterAt, ih]

theorem clusterAt_ends (ends : ∃ steps, EndsIn v steps first) : ∀ {k cluster : Nat},
    clusterAt v.table first k = some cluster → ∃ steps, EndsIn v steps cluster := by
  intro k
  induction k with
  | zero =>
    intro cluster here
    unfold clusterAt at here
    split at here
    · cases here
    · cases here
      exact ends
  | succ k ih =>
    intro cluster here
    cases before : clusterAt v.table first k with
    | none =>
      rw [clusterAt, before] at here
      cases here
    | some =>
      rw [clusterAt_next before] at here
      split at here
      · cases here
      next goes =>
        cases here
        obtain ⟨_, onward⟩ := ih before
        exact onward.tail (Bool.eq_false_iff.mpr fun eoc => goes (Or.inr eoc))

/-! ### Volumes that look the same -/

/-- The table can be read, and what is written to it stays. -/
structure Tidy (v : Volume) : Prop where
  coherent : Coherent v
  reliable : FatReliable v

theorem Tidy.of_seen (tidy : Tidy v) (seen : Seen v v') : Tidy v' :=
  ⟨seen.coherent, seen.toShape.reliable tidy.reliable⟩

theorem EndsIn.of_seen (seen : Seen v v') (ends : EndsIn v steps cluster) :
    EndsIn v' steps cluster :=
  ends.of_same seen.toShape seen.table

theorem walkChain_walk : ∀ (steps : Nat) {v : Volume}
    {i cluster : Nat}, Tidy v → (∃ n, EndsIn v n first) → clusterAt v.table first i = some cluster →
    (walkChain steps v cluster).1 = clusterAt v.table first (i + steps) ∧
      Seen v (walkChain steps v cluster).2 := by
  intro steps
  induction steps with
  | zero =>
    intro v i cluster tidy _ here
    exact ⟨here.symm, Seen.refl tidy.coherent⟩
  | succ steps ih =>
    intro v i cluster tidy ends here
    obtain ⟨n, onward⟩ := clusterAt_ends ends here
    obtain ⟨value, seen⟩ := fatRead_proper tidy.coherent tidy.reliable onward.proper
    have next := clusterAt_next here
    unfold walkChain
    dsimp only
    rw [value]
    have index : i + (steps + 1) = i + 1 + steps := by omega
    rw [index]
    split
    · next ended =>
        rw [if_pos ended] at next
        exact ⟨(clusterAt_none next steps).symm, seen⟩
    next goes =>
      rw [if_neg goes] at next
      obtain ⟨k, ends⟩ := ends
      obtain ⟨arrives, seen'⟩ := ih (tidy.of_seen seen)
        ⟨k, ends.of_seen seen⟩ (by rw [seen.table]; exact next)
      rw [seen.table] at arrives
      exact ⟨arrives, seen.trans seen'⟩

/-! ### Clusters that are added -/

/-- The last cluster of a chain, if it is one, ends it. -/
def Final (v : Volume) (last : Nat) : Prop :=
  2 ≤ last → ¬ v.Gap last ∧ fatIsEoc (v.table last) = true

/-- The clusters of the volume are numbers an entry can hold, and none of them
lies in the gap. -/
structure Assignable (v : Volume) : Prop where
  numbered : v.limit ≤ fat32Bad
  proper : ∀ cluster, cluster < v.limit → ¬ v.Gap cluster

theorem Assignable.of_shape (able : Assignable v) (shape : Shape v v') : Assignable v' where
  numbered := by
    rw [shape.limit]
    exact able.numbered
  proper := fun cluster bound gap =>
    able.proper cluster (by rw [← shape.limit]; exact bound) ((shape.gap cluster).mp gap)

theorem Assignable.value (able : Assignable v) (bound : cluster < v.limit) :
    cluster % fatMask = cluster ∧ fatIsEoc cluster = false :=
  cluster_value (lt_of_lt_of_le bound able.numbered)

/-- What an allocation leaves of the chains: the entries that lead on still do,
and a walk that ended still ends. -/
structure Grows (v v' : Volume) : Prop extends Shape v v' where
  coherent : Coherent v'
  keeps : ∀ cluster, 2 ≤ v.table cluster → fatIsEoc (v.table cluster) = false →
    v'.table cluster = v.table cluster
  ends : ∀ cluster steps, EndsIn v steps cluster → ∃ more, EndsIn v' more cluster

theorem Grows.of_same (shape : Shape v v') (coherent : Coherent v')
    (table : v'.table = v.table) : Grows v v' where
  toShape := shape
  coherent := coherent
  keeps := fun cluster _ _ => by rw [table]
  ends := fun _ steps ends => ⟨steps, ends.of_same shape table⟩

theorem Grows.of_seen (seen : Seen v v') : Grows v v' :=
  Grows.of_same seen.toShape seen.coherent seen.table

theorem Grows.trans {a b c : Volume} (first : Grows a b) (second : Grows b c) : Grows a c where
  toShape := first.toShape.trans second.toShape
  coherent := second.coherent
  keeps := by
    intro cluster least goes
    have before := first.keeps cluster least goes
    rw [← before] at least goes
    rw [second.keeps cluster least goes, before]
  ends := by
    intro cluster steps ends
    obtain ⟨more, ends'⟩ := first.ends cluster steps ends
    exact second.ends cluster more ends'

theorem Grows.tidy (grows : Grows v v') (tidy : Tidy v) : Tidy v' :=
  ⟨grows.coherent, grows.toShape.reliable tidy.reliable⟩

theorem Grows.clusterAt (grows : Grows v v') : ∀ {k cluster : Nat},
    clusterAt v.table first k = some cluster → clusterAt v'.table first k = some cluster := by
  intro k
  induction k with
  | zero => exact fun here => here
  | succ k ih =>
    intro cluster here
    cases before : Fat.clusterAt v.table first k with
    | none =>
      rw [Fat.clusterAt, before] at here
      cases here
    | some previous =>
      rw [clusterAt_next before] at here
      rw [clusterAt_next (ih before)]
      split at here
      · cases here
      next goes =>
        rw [grows.keeps previous (Nat.le_of_not_lt fun small => goes (Or.inl small))
          (Bool.eq_false_iff.mpr fun eoc => goes (Or.inr eoc)), if_neg goes]
        exact here

section

variable (tidy : Tidy v) (able : Assignable v) {last : Nat} (bound : cluster < v.limit)
  (free : v.table cluster = fat32Free) (final : Final v last)
include tidy able bound free final

theorem linkCluster_table : Tabled v (linkCluster v last cluster) ∧
    (linkCluster v last cluster).table = if 2 ≤ last ∧ v.Covers last then update
          (update v.table cluster fat32Eoc) last cluster else update v.table cluster fat32Eoc := by
  have covered : v.Covers cluster := covers_of_goes (by rw [free]; decide)
  obtain ⟨tabled, written⟩ := fatWrite_proper tidy.coherent tidy.reliable
    (able.proper cluster bound) fat32Eoc
  rw [if_pos covered, eoc_value] at written
  unfold linkCluster
  by_cases least : 2 ≤ last
  · rw [if_pos least]
    have shape := tabled.toShape
    obtain ⟨tabled', written'⟩ := fatWrite_proper tabled.coherent (shape.reliable tidy.reliable)
      (fun gap => (final least).1 ((shape.gap last).mp gap)) cluster
    refine ⟨⟨tabled.toKept.trans tabled'.toKept, tabled'.coherent,
      tabled'.hint.trans tabled.hint⟩, ?_⟩
    rw [written', written, (able.value bound).1]
    by_cases inside : v.Covers last
    · rw [if_pos ((shape.covers last).mpr inside), if_pos ⟨least, inside⟩]
    · rw [if_neg (fun also => inside ((shape.covers last).mp also)),
        if_neg (fun both => inside both.2)]
  · rw [if_neg least, if_neg (fun both => least both.1)]
    exact ⟨tabled, written⟩

/-- A link takes a free cluster and the end of a chain, and makes the cluster
the end. -/
theorem linkCluster_grows :
    Grows v (linkCluster v last cluster) ∧ EndsIn (linkCluster v last cluster) 0 cluster := by
  obtain ⟨tabled, table⟩ := linkCluster_table tidy able bound free final
  generalize linkCluster v last cluster = v' at tabled table ⊢
  have shape := tabled.toShape
  have apart : 2 ≤ last ∧ v.Covers last → cluster ≠ last := by
    rintro ⟨least, _⟩ rfl
    have eoc := (final least).2
    rw [free] at eoc
    exact absurd eoc (by decide)
  have here : v'.table cluster = fat32Eoc := by
    rw [table]
    split
    · next both => rw [update_of_ne (apart both), update_self]
    · rw [update_self]
  have atLast : 2 ≤ last ∧ v.Covers last → v'.table last = cluster := by
    intro both
    rw [table, if_pos both, update_self]
  have elsewhere : ∀ other, other ≠ cluster → ¬ (other = last ∧ 2 ≤ last ∧
      v.Covers last) → v'.table other = v.table other := by
    intro other new old
    rw [table]
    split
    · next both => rw [update_of_ne (fun same => old ⟨same, both⟩), update_of_ne new]
    · rw [update_of_ne new]
  have ended : EndsIn v' 0 cluster :=
    ⟨fun gap => able.proper cluster bound ((shape.gap cluster).mp gap), by
      rw [here]
      decide⟩
  have extended : 2 ≤ last ∧ v.Covers last → EndsIn v' 1 last := by
    intro both
    refine ⟨fun gap => (final both.1).1 ((shape.gap last).mp gap), ?_, ?_⟩
    · rw [atLast both]
      exact (able.value bound).2
    · rw [atLast both]
      exact ended
  refine ⟨⟨shape, tabled.coherent, ?_, ?_⟩, ended⟩
  · intro other least goes
    refine elsewhere other ?_ ?_
    · rintro rfl
      rw [free] at least
      exact absurd least (by decide)
    · rintro ⟨rfl, large, _⟩
      exact absurd ((final large).2.symm.trans goes) Bool.noConfusion
  intro other steps
  induction steps generalizing other with
  | zero =>
    intro ends
    by_cases new : other = cluster
    · exact ⟨0, new ▸ ended⟩
    by_cases old : other = last ∧ 2 ≤ last ∧ v.Covers last
    · exact ⟨1, old.1 ▸ extended old.2⟩
    refine ⟨0, fun gap => ends.1 ((shape.gap other).mp gap), ?_⟩
    rw [elsewhere other new old]
    exact ends.2
  | succ _ ih =>
    intro ends
    by_cases new : other = cluster
    · exact ⟨0, new ▸ ended⟩
    by_cases old : other = last ∧ 2 ≤ last ∧ v.Covers last
    · exact ⟨1, old.1 ▸ extended old.2⟩
    obtain ⟨proper, goes, rest⟩ := ends
    obtain ⟨more, rest'⟩ := ih _ rest
    refine ⟨more + 1, fun gap => proper ((shape.gap other).mp gap), ?_, ?_⟩
    · rw [elsewhere other new old]
      exact goes
    · rw [elsewhere other new old]
      exact rest'

end

/-- What a batch has so far: its last cluster ends a chain, and so does the walk
from its first one. -/
structure Begun (v : Volume) (batch : Batch) : Prop where
  final : Final v batch.last
  first : batch.firstNew ≠ 0 → 2 ≤ batch.firstNew ∧ ∃ steps, EndsIn v steps batch.firstNew

theorem Begun.of_seen {batch : Batch} (begun : Begun v batch) (seen : Seen v v') :
    Begun v' batch where
  final := fun least => by
    obtain ⟨proper, eoc⟩ := begun.final least
    exact ⟨fun gap => proper ((seen.toShape.gap _).mp gap), by
      rw [seen.table]
      exact eoc⟩
  first := fun some' => by
    obtain ⟨least, steps, ends⟩ := begun.first some'
    exact ⟨least, steps, ends.of_seen seen⟩

/-- The batch begins a chain as soon as it has a cluster, and until then ends where
it did. -/
theorem allocLoop_grows (count : Nat) (batch : Batch) {candidates : List Nat} (tidy : Tidy v)
    (able : Assignable v) (valid : ∀ cluster ∈ candidates, 2 ≤ cluster ∧ cluster < v.limit)
    (begun : Begun v batch) : Grows v (allocLoop count candidates v batch).2 ∧
    Begun (allocLoop count candidates v batch).2 (allocLoop count candidates v batch).1 ∧
      ((allocLoop count candidates v batch).1.firstNew = 0 →
        (allocLoop count candidates v batch).1.last = batch.last) := by
  have read : ∀ {u : Volume} {cluster : Nat}, Grows v u → cluster < v.limit →
      (fatRead u cluster).1 = u.table cluster ∧ Seen u (fatRead u cluster).2 := fun grows bound =>
    fatRead_proper (grows.tidy tidy).coherent (grows.tidy tidy).reliable
      ((able.of_shape grows.toShape).proper _ (by rw [grows.toShape.limit]; exact bound))
  refine (@allocLoop_keeps count (fun rest u batch' => Grows v u ∧ Begun u batch' ∧
    (batch'.firstNew = 0 → batch'.last = batch.last) ∧
    ∀ cluster ∈ rest, 2 ≤ cluster ∧ cluster < v.limit) ?_ ?_ candidates v batch
    ⟨Grows.of_seen (Seen.refl tidy.coherent), begun, fun _ => rfl, valid⟩).elim
    fun _ kept => ⟨kept.1.1, kept.1.2.1, kept.1.2.2.1⟩
  · rintro cluster rest u batch' ⟨grows, begun, same, valid⟩ _ _
    obtain ⟨_, seen⟩ := read grows (valid cluster List.mem_cons_self).2
    exact ⟨grows.trans (.of_seen seen), begun.of_seen seen, same,
      fun other member => valid other (List.mem_cons_of_mem _ member)⟩
  · rintro cluster rest u batch' ⟨grows, begun, same, valid⟩ _ free
    obtain ⟨least, bound⟩ := valid cluster List.mem_cons_self
    obtain ⟨value, seen⟩ := read grows bound
    have grows' := grows.trans (.of_seen seen)
    have begun' := begun.of_seen seen
    obtain ⟨linked, ended⟩ := linkCluster_grows (grows'.tidy tidy) (able.of_shape grows'.toShape)
      (by rw [grows'.toShape.limit]; exact bound) (by rw [seen.table, ← value]; exact free)
      begun'.final
    refine ⟨grows'.trans linked, ⟨fun _ => ended, fun _ => ?_⟩, fun nothing => ?_,
      fun other member => valid other (List.mem_cons_of_mem _ member)⟩
    · dsimp only
      split
      · exact ⟨least, 0, ended⟩
      · next some' =>
        obtain ⟨least', steps, ends⟩ := begun'.first some'
        exact ⟨least', linked.ends _ steps ends⟩
    · dsimp only at nothing
      split at nothing
      · exact absurd (nothing ▸ least) (by decide)
      · contradiction

/-- What room for a write leaves. -/
structure Added (v : Volume) (prev : Nat) (result : Batch × Volume) : Prop where
  grows : Grows v result.2
  begun : Begun result.2 result.1
  same : result.1.firstNew = 0 → result.1.last = prev

section

variable (tidy : Tidy v) (able : Assignable v) {prev : Nat} (final : Final v prev) (count : Nat)
include tidy able final count

theorem fatAllocBatch_added : Added v prev (fatAllocBatch v prev count) := by
  obtain ⟨grows, begun, same⟩ := allocLoop_grows count ⟨0, prev, 0⟩ tidy able
    (fun cluster => ((searchOrder_spec v).2 cluster).mp)
    ⟨final, fun impossible => absurd rfl impossible⟩
  unfold fatAllocBatch
  dsimp only
  generalize allocLoop count (searchOrder v) v ⟨0, prev, 0⟩ = result at *
  obtain ⟨batch, v'⟩ := result
  split
  · -- the hint is no part of the table
    have hint : Grows v' { v' with nextFreeHint := batch.last + 1 } :=
      Grows.of_same ⟨rfl, rfl, rfl, rfl, rfl, rfl⟩
        ⟨grows.coherent.idle, grows.coherent.range, grows.coherent.window, grows.coherent.clean⟩ rfl
    refine ⟨grows.trans hint, ⟨begun.final, ?_⟩, same⟩
    intro some'
    obtain ⟨least, steps, ends⟩ := begun.first some'
    exact ⟨least, hint.ends _ steps ends⟩
  · exact ⟨grows, begun, same⟩

theorem allocRoom_added : Added v prev (allocRoom v prev count) := by
  have added := fatAllocBatch_added tidy able final (max count fatPreallocCount)
  unfold allocRoom
  dsimp only
  generalize fatAllocBatch v prev (max count fatPreallocCount) = result at *
  split
  · next again =>
      have last := added.same again.1
      have final' := added.begun.final
      rw [last] at final'
      have added' := fatAllocBatch_added (added.grows.tidy tidy)
        (able.of_shape added.grows.toShape) final' count
      exact ⟨added.grows.trans added'.grows, added'.begun, added'.same⟩
  · exact added

end

theorem measureLoop_final : ∀ (fuel : Nat) {v : Volume} {steps cluster : Nat}
    (len : Nat), Tidy v → EndsIn v steps cluster → steps < fuel → ∃ last len' v',
    measureLoop fuel v cluster len = ((last, len'), v') ∧ Final v' last ∧ Seen v v' := by
  intro fuel
  induction fuel with
  | zero =>
    intro v steps cluster len _ _ impossible
    exact absurd impossible (Nat.not_lt_zero _)
  | succ _ ih =>
    intro v steps cluster len tidy ends enough
    obtain ⟨value, seen⟩ := fatRead_proper tidy.coherent tidy.reliable ends.proper
    have tidy' := tidy.of_seen seen
    have ends' := ends.of_seen seen
    obtain ⟨value', seen'⟩ := fatRead_proper tidy'.coherent tidy'.reliable ends'.proper
    unfold measureLoop
    dsimp only
    rw [value, value', seen.table]
    cases steps with
    | zero =>
      rw [if_pos ends.2]
      refine ⟨cluster, len, _, rfl, fun _ => ⟨ends'.proper, ?_⟩, seen⟩
      rw [seen.table]
      exact ends.2
    | succ =>
      rw [if_neg (by rw [ends.2.1]; exact Bool.false_ne_true)]
      have both := seen.trans seen'
      obtain ⟨last, len', v', result, final, seen''⟩ := ih (len + 1)
        (tidy'.of_seen seen') (ends.2.2.of_seen both) (Nat.lt_of_succ_lt_succ enough)
      exact ⟨last, len', v', result, final, both.trans seen''⟩

/-! ### Volumes with given entries -/

/-- A volume with one FAT of the given entries and nothing in cache. -/
def volumeOf (fatSize clusters : Nat) (fat : Nat → Nat) : Volume where
  sectorsPerCluster := 1
  fatSizeSectors := fatSize
  totalClusters := clusters
  numFats := 1
  rootCluster := 2
  fat := fat
  fatCopy := fun _ => 0
  fatCacheStart := none
  fatCache := fun _ => 0
  fatCacheDirty := false
  fatDirtyLo := 0
  fatDirtyHi := 0
  nextFreeHint := 2
  data := fun _ _ => 0
  slots := fun _ => []
  outcome := fun _ _ => true
  writes := fun _ => 0

theorem volumeOf_tidy (fatSize clusters : Nat) (fat : Nat → Nat) :
    Tidy (volumeOf fatSize clusters fat) where
  coherent := {
    idle := fun _ => rfl
    range := fun dirty => absurd dirty Bool.false_ne_true
    window := fun _ loaded => by cases loaded
    clean := fun _ _ loaded => by cases loaded }
  reliable := fun _ => rfl

end MainDob.Fs.Fat
