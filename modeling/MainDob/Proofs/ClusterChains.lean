/-
Purpose: Cluster chains in the logical table, and what `fat_alloc_batch` and `fat_alloc_cluster`
  add to a chain.
Main exports: nextCluster, Chain, linkAll
-/
import MainDob.Lib.Linked
import MainDob.Proofs.FatTable
import Mathlib.Data.List.Perm.Subperm

namespace MainDob.Fs

open Lib (Linked)
open List Function

/-! ### Chains in a table -/

/-- The cluster after `cluster`, as the walks of the source see it. -/
def nextCluster (table : Nat → Nat) (cluster : Nat) : Option Nat :=
  if fatIsEoc (table cluster) then none else some (table cluster)

/-- `clusters` is a chain of the table, within the volume. -/
structure Chain (table : Nat → Nat) (limit : Nat) (clusters : List Nat) : Prop where
  linked : Linked (nextCluster table) clusters
  valid : ∀ cluster ∈ clusters, 2 ≤ cluster ∧ cluster < limit

/-- A volume whose table covers its clusters, through a coherent cache over FAT
sectors that can be written. -/
structure FatSound (v : Volume) : Prop where
  coherent : Coherent v
  reliable : FatReliable v
  covered : v.totalClusters + 2 ≤ v.fatSizeSectors * entriesPerSector
  numbered : v.totalClusters + 2 ≤ fat32Bad

/-- The clusters of the volume are below this number. -/
def Volume.limit (v : Volume) : Nat := v.totalClusters + 2

theorem FatSound.covers {v : Volume} (sound : FatSound v) {cluster : Nat}
    (bound : cluster < v.limit) : v.Covers cluster := by
  have covered := sound.covered
  unfold Volume.Covers Volume.limit entriesPerSector at *
  omega

theorem FatSound.of_shape {v v' : Volume} (sound : FatSound v)
    (shape : Shape v v') (coherent : Coherent v') : FatSound v' where
  coherent := coherent
  reliable := shape.reliable sound.reliable
  covered := by
    rw [shape.clusters, shape.fatSize]
    exact sound.covered
  numbered := by
    rw [shape.clusters]
    exact sound.numbered

theorem Shape.limit {v v' : Volume} (shape : Shape v v') : v'.limit = v.limit := by
  unfold Volume.limit
  rw [shape.clusters]

theorem FatSound.of_seen {v v' : Volume} (sound : FatSound v) (seen : Seen v v') : FatSound v' :=
  sound.of_shape seen.toShape seen.coherent

theorem fatRead_seen {v : Volume} (sound : FatSound v) {cluster : Nat} (bound : cluster < v.limit) :
    (fatRead v cluster).1 = v.table cluster ∧ Seen v (fatRead v cluster).2 :=
  fatRead_spec sound.coherent sound.reliable (sound.covers bound)

theorem cluster_value {cluster : Nat} (bound : cluster < fat32Bad) :
    cluster % fatMask = cluster ∧ fatIsEoc cluster = false := by
  unfold fat32Bad fatMask fatIsEoc fat32EocMin at *
  exact ⟨Nat.mod_eq_of_lt (by omega), decide_eq_false (by omega)⟩

theorem FatSound.cluster_value {v : Volume} (sound : FatSound v) {cluster : Nat}
    (bound : cluster < v.limit) :
    cluster % fatMask = cluster ∧ fatIsEoc cluster = false ∧ cluster ≠ fat32Bad := by
  have small : cluster < fat32Bad := lt_of_lt_of_le bound sound.numbered
  obtain ⟨value, notEnd⟩ := Fs.cluster_value small
  exact ⟨value, notEnd, ne_of_lt small⟩

theorem covers_of_goes {v : Volume} {cluster : Nat}
    (goes : fatIsEoc (v.table cluster) = false) : v.Covers cluster := by
  by_contra past
  unfold Volume.table at goes
  rw [if_neg past] at goes
  exact absurd goes (by decide)

/-- Clusters a search may try: numbers of the volume, none of them in the gap. -/
structure Searchable (v : Volume) (candidates : List Nat) : Prop where
  coherent : Coherent v
  reliable : FatReliable v
  valid : ∀ cluster ∈ candidates, 2 ≤ cluster ∧ cluster < v.limit
  proper : ∀ cluster ∈ candidates, ¬ v.Gap cluster

namespace Searchable

variable {v v' : Volume} {cluster : Nat} {candidates : List Nat}

theorem tail (search : Searchable v (cluster :: candidates)) : Searchable v candidates where
  coherent := search.coherent
  reliable := search.reliable
  valid := fun other member => search.valid other (mem_cons_of_mem _ member)
  proper := fun other member => search.proper other (mem_cons_of_mem _ member)

theorem of_shape (search : Searchable v candidates) (shape : Shape v v')
    (coherent : Coherent v') : Searchable v' candidates where
  coherent := coherent
  reliable := shape.reliable search.reliable
  valid := by
    rw [shape.limit]
    exact search.valid
  proper := fun other member gap => search.proper other member ((shape.gap other).mp gap)

end Searchable

theorem FatSound.searchable {v : Volume} (sound : FatSound v) {candidates : List Nat}
    (valid : ∀ cluster ∈ candidates, 2 ≤ cluster ∧ cluster < v.limit) :
    Searchable v candidates where
  coherent := sound.coherent
  reliable := sound.reliable
  valid := valid
  proper := fun cluster member gap => gap.1 (sound.covers (valid cluster member).2)

theorem eoc_value : fat32Eoc % fatMask = fat32Eoc := by decide

theorem fatIsEoc_eoc : fatIsEoc fat32Eoc = true := by decide

variable {table : Nat → Nat} {limit : Nat} {clusters : List Nat}

theorem Chain.congr {table' : Nat → Nat} (chain : Chain table limit clusters)
    (same : ∀ cluster ∈ clusters, table' cluster = table cluster) :
    Chain table' limit clusters := by
  refine ⟨chain.linked.congr ?_, chain.valid⟩
  intro cluster member
  unfold nextCluster
  rw [same cluster member]

theorem Chain.entry (chain : Chain table limit clusters) {cluster : Nat}
    (member : cluster ∈ clusters) : fatIsEoc (table cluster) = true ∨
      (table cluster ∈ clusters ∧ 2 ≤ table cluster ∧ table cluster < limit) := by
  obtain ⟨i, here⟩ := mem_iff_getElem?.mp member
  have step := chain.linked i cluster here
  unfold nextCluster at step
  split at step
  · next eoc => exact Or.inl eoc
  · have next := mem_of_getElem? step.symm
    exact Or.inr ⟨next, chain.valid _ next⟩

theorem Chain.step {chain : List Nat} (sound : Chain table limit chain) {i cluster : Nat}
    (here : chain[i]? = some cluster) : (chain[i + 1]? = none ∧ fatIsEoc (table cluster) = true) ∨
      (chain[i + 1]? = some (table cluster) ∧
        fatIsEoc (table cluster) = false ∧ 2 ≤ table cluster) := by
  have next := sound.linked i cluster here
  unfold nextCluster at next
  cases eoc : fatIsEoc (table cluster) with
  | true =>
    rw [eoc, if_pos rfl] at next
    exact Or.inl ⟨next.symm, rfl⟩
  | false =>
    rw [eoc, if_neg Bool.false_ne_true] at next
    exact Or.inr ⟨next.symm, rfl, (sound.valid _ (mem_of_getElem? next.symm)).1⟩

theorem Chain.of_seen {v v' : Volume} {chain : List Nat} (sound : Chain v.table v.limit chain)
    (seen : Seen v v') : Chain v'.table v'.limit chain := by
  rw [seen.table, seen.limit]
  exact sound

theorem Chain.head_read {v : Volume} {cluster : Nat} {rest : List Nat}
    (chain : Chain v.table v.limit (cluster :: rest)) (sound : FatSound v) :
    (fatRead v cluster).1 = v.table cluster ∧
    Seen v (fatRead v cluster).2 ∧ (2 ≤ cluster ∧ fatIsEoc cluster = false) := by
  obtain ⟨least, bound⟩ := chain.valid cluster mem_cons_self
  obtain ⟨value, seen⟩ := fatRead_seen sound bound
  exact ⟨value, seen, least, (sound.cluster_value bound).2.1⟩

theorem Chain.last {cluster : Nat} (chain : Chain table limit [cluster]) :
    fatIsEoc (table cluster) = true := by
  rcases chain.step (i := 0) rfl with ⟨_, ends⟩ | ⟨next, _⟩
  · exact ends
  · cases next

theorem Chain.next {cluster next : Nat} {rest : List Nat}
    (chain : Chain table limit (cluster :: next :: rest)) :
    table cluster = next ∧ fatIsEoc (table cluster) = false ∧ Chain table limit (next :: rest) := by
  rcases chain.step (i := 0) rfl with ⟨none, _⟩ | ⟨here, more, _⟩
  · cases none
  · exact ⟨(Option.some.inj here).symm, more, chain.linked.tail,
      fun other member => chain.valid other (mem_cons_of_mem _ member)⟩

theorem Chain.not_free (chain : Chain table limit clusters) {cluster : Nat}
    (member : cluster ∈ clusters) : table cluster ≠ fat32Free := by
  intro free
  rcases chain.entry member with eoc | ⟨_, least, _⟩
  · rw [free] at eoc
    cases eoc
  · rw [free] at least
    cases least

/-! ### Links -/

/-- The table after `cluster` has become the end of the chain that ended in
`last`. -/
def linkOne (table : Nat → Nat) (last cluster : Nat) : Nat → Nat :=
  let ended := Function.update table cluster fat32Eoc
  if 2 ≤ last then Function.update ended last cluster else ended

/-- The table after the clusters have been linked one after the other. -/
def linkAll (table : Nat → Nat) (last : Nat) : List Nat → Nat → Nat
  | [] => table
  | cluster :: rest => linkAll (linkOne table last cluster) cluster rest

variable {last : Nat}

theorem linkOne_outside {cluster other : Nat} (new : other ≠ cluster) (old : other ≠ last) :
    linkOne table last cluster other = table other := by
  unfold linkOne
  split
  · rw [update_of_ne old, update_of_ne new]
  · rw [update_of_ne new]

theorem linkOne_self {cluster : Nat} (other : 2 ≤ last → cluster ≠ last) :
    linkOne table last cluster cluster = fat32Eoc := by
  unfold linkOne
  split
  · next least => rw [update_of_ne (other least), update_self]
  · rw [update_self]

theorem linkAll_outside : ∀ {clusters : List Nat} {table : Nat → Nat}
    {last other : Nat}, other ∉ clusters → other ≠ last →
    linkAll table last clusters other = table other
  | [], _, _, _, _, _ => rfl
  | cluster :: rest, table, last, other, outside, old => by
    have new : other ≠ cluster := fun same => outside (same ▸ mem_cons_self)
    have later : other ∉ rest := fun member => outside (mem_cons_of_mem _ member)
    unfold linkAll
    rw [linkAll_outside later new, linkOne_outside new old]

theorem linkAll_last {first : Nat} (starts : clusters.head? = some first) (least : 2 ≤ last)
    (apart : last ∉ clusters) : linkAll table last clusters last = first := by
  cases clusters with
  | nil => cases starts
  | cons _ rest =>
    cases starts
    have new : last ≠ first := fun same => apart (same ▸ mem_cons_self)
    have later : last ∉ rest := fun member => apart (mem_cons_of_mem _ member)
    unfold linkAll
    rw [linkAll_outside later new]
    unfold linkOne
    rw [if_pos least, update_self]

theorem linkAll_concat (clusters : List Nat) (cluster : Nat) : ∀ (table : Nat → Nat) (last : Nat),
    linkAll table last (clusters ++ [cluster]) =
      linkOne (linkAll table last clusters) (clusters.getLast?.getD last) cluster := by
  induction clusters with
  | nil => exact fun _ _ => rfl
  | cons next rest ih =>
    intro table last
    rw [cons_append, linkAll, linkAll, ih, List.getLast?_cons]
    rfl

/-- The links free no cluster, and take none but the new ones. -/
theorem linkAll_free {other : Nat} (outside : other ∉ clusters) (least : 2 ≤ other)
    (taken : 2 ≤ last → table last ≠ fat32Free) (proper : ∀ cluster ∈ clusters, 2 ≤ cluster) :
    linkAll table last clusters other = fat32Free ↔ table other = fat32Free := by
  by_cases old : other = last
  · subst old
    cases first : clusters.head? with
    | none => rw [List.head?_eq_none_iff.mp first, linkAll]
    | some next =>
      rw [linkAll_last first least outside]
      refine iff_of_false (fun free => ?_) (taken least)
      exact absurd (free ▸ proper next (mem_of_head? first)) (by decide)
  · rw [linkAll_outside outside old]

theorem linkAll_chain {limit : Nat} : ∀ {clusters : List Nat} {table : Nat → Nat}
    {last : Nat}, clusters.Nodup → last ∉ clusters →
    (∀ cluster ∈ clusters, 2 ≤ cluster ∧ cluster < limit ∧ fatIsEoc cluster = false) →
    Chain (linkAll table last clusters) limit clusters
  | [], _, _, _, _, _ => ⟨Linked.nil, nofun⟩
  | cluster :: rest, table, last, distinct, apart, valid => by
    obtain ⟨fresh, distinct'⟩ := nodup_cons.mp distinct
    have valid' := fun other member => valid other (mem_cons_of_mem _ member)
    have tail : Chain (linkAll table last (cluster :: rest)) limit rest :=
      linkAll_chain distinct' fresh valid'
    refine ⟨tail.linked.cons ?_, fun other member =>
      ⟨(valid other member).1, (valid other member).2.1⟩⟩
    unfold nextCluster linkAll
    cases rest with
    | nil =>
      have other : cluster ≠ last := fun same => apart (same ▸ mem_cons_self)
      unfold linkAll
      rw [linkOne_self (fun _ => other), if_pos fatIsEoc_eoc]
      rfl
    | cons next =>
      have least := (valid cluster mem_cons_self).1
      rw [linkAll_last rfl least fresh, if_neg]
      · rfl
      · rw [(valid next (mem_cons_of_mem _ mem_cons_self)).2.2]
        exact Bool.false_ne_true

/-- Where a chain ends: at its last cluster, or nowhere. -/
def EndsAt (clusters : List Nat) (last : Nat) : Prop :=
  clusters.getLast? = some last ∨ (clusters = [] ∧ last < 2)

theorem Chain.extend {old new : List Nat} (chain : Chain table limit old) (ends : EndsAt old last)
    (distinct : new.Nodup) (fresh : ∀ cluster ∈ new, cluster ∉ old)
    (valid : ∀ cluster ∈ new, 2 ≤ cluster ∧ cluster < limit ∧ fatIsEoc cluster = false) :
    Chain (linkAll table last new) limit (old ++ new) := by
  have apart : last ∉ new := by
    intro member
    rcases ends with last' | ⟨_, small⟩
    · exact fresh last member (mem_of_getLast? last')
    · exact Nat.not_le.mpr small (valid last member).1
  have added : Chain (linkAll table last new) limit new := linkAll_chain distinct apart valid
  refine ⟨chain.linked.extend added.linked ?_ ?_, ?_⟩
  · intro i cluster here more
    have old' := mem_of_getElem? here
    have notNew : cluster ∉ new := fun member => fresh cluster member old'
    have notLast : cluster ≠ last := by
      rintro rfl
      rcases ends with last' | ⟨rfl, _⟩
      · rw [List.getLast?_eq_getElem?, ← here] at last'
        have same := (List.getElem?_inj (i := old.length - 1) (by omega)
          chain.linked.nodup).mp last'
        omega
      · cases here
    unfold nextCluster
    rw [linkAll_outside notNew notLast]
  · intro cluster ended
    rcases ends with last' | ⟨rfl, _⟩
    · have same : cluster = last := Option.some.inj (ended.symm.trans last')
      subst same
      have least := (chain.valid cluster (mem_of_getLast? ended)).1
      cases new with
      | nil =>
        rw [List.getLast?_eq_getElem?] at ended
        have done := chain.linked _ cluster ended
        rw [List.getElem?_eq_none (by omega)] at done
        exact done
      | cons first =>
        unfold nextCluster
        rw [linkAll_last rfl least apart, if_neg]
        · rfl
        · rw [(valid first mem_cons_self).2.2]
          exact Bool.false_ne_true
    · cases ended
  · intro cluster member
    rcases mem_append.mp member with before | after
    · exact chain.valid cluster before
    · exact ⟨(valid cluster after).1, (valid cluster after).2.1⟩

/-! ### Allocation -/

theorem linkCluster_spec {v : Volume} (coherent : Coherent v) (reliable : FatReliable v)
    {cluster : Nat} (covered : v.Covers cluster) (bound : cluster < fat32Bad)
    (inside : 2 ≤ last → v.Covers last) : Tabled v (linkCluster v last cluster) ∧
      (linkCluster v last cluster).table = linkOne v.table last cluster := by
  obtain ⟨first, ended⟩ := fatWrite_spec coherent reliable covered fat32Eoc
  unfold linkCluster linkOne
  split
  · next least =>
      obtain ⟨second, linked⟩ := fatWrite_spec first.coherent (first.toShape.reliable reliable)
        ((first.toShape.covers last).mpr (inside least)) cluster
      refine ⟨⟨first.toKept.trans second.toKept, second.coherent, second.hint.trans first.hint⟩, ?_⟩
      rw [linked, ended, eoc_value, (cluster_value bound).1]
  · refine ⟨first, ?_⟩
    rw [ended, eoc_value]

/-- The loop of `fat_alloc_batch`: what reading a cluster in use and linking a free
one keep of the candidates left, it keeps, and it stops for a lack of candidates only
or with as many clusters as are asked for. -/
theorem allocLoop_keeps {count : Nat} {I : List Nat → Volume → Batch → Prop}
    (pass : ∀ {cluster rest v batch}, I (cluster :: rest) v batch → batch.allocated < count →
      (fatRead v cluster).1 ≠ fat32Free → I rest (fatRead v cluster).2 batch)
    (take : ∀ {cluster rest v batch}, I (cluster :: rest) v batch → batch.allocated < count →
      (fatRead v cluster).1 = fat32Free →
      I rest (linkCluster (fatRead v cluster).2 batch.last cluster)
        ⟨if batch.firstNew = 0 then cluster else batch.firstNew, cluster, batch.allocated + 1⟩) :
    ∀ {candidates : List Nat} {v : Volume} {batch : Batch}, I candidates v batch →
      ∃ rest, I rest (allocLoop count candidates v batch).2 (allocLoop count candidates v batch).1 ∧
        ((allocLoop count candidates v batch).1.allocated < count → rest = []) := by
  intro candidates
  induction candidates with
  | nil => exact fun start => ⟨[], start, fun _ => rfl⟩
  | cons cluster rest ih =>
    intro v batch start
    unfold allocLoop
    by_cases more : batch.allocated < count
    · rw [if_pos more]
      dsimp only
      split
      · next used => exact ih (pass start more used)
      · next free => exact ih (take start more (not_not.mp free))
    · rw [if_neg more]
      exact ⟨_, start, fun less => absurd less more⟩

theorem searchOrder_spec (v : Volume) : (searchOrder v).Nodup ∧
      ∀ cluster, cluster ∈ searchOrder v ↔ 2 ≤ cluster ∧ cluster < v.limit := by
  unfold searchOrder Volume.limit
  generalize within : (if 2 ≤ v.nextFreeHint ∧ v.nextFreeHint < v.totalClusters + 2
    then v.nextFreeHint else 2) = start
  have range : 2 ≤ start ∧ start ≤ v.totalClusters + 2 := by
    rw [← within]
    split <;> omega
  constructor
  · rw [nodup_append]
    refine ⟨nodup_range', nodup_range', ?_⟩
    intro first member second member'
    rw [mem_range'_1] at member member'
    omega
  · intro cluster
    rw [mem_append, mem_range'_1, mem_range'_1]
    omega

theorem Chain.length_le (chain : Chain table limit clusters) : clusters.length ≤ limit := by
  have inside : clusters ⊆ List.range limit := by
    intro cluster member
    exact mem_range.mpr (chain.valid cluster member).2
  have shorter := (chain.linked.nodup.subperm inside).length_le
  rwa [length_range] at shorter

end MainDob.Fs
