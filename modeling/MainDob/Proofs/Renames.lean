/-
Purpose: What RENAME does to the two names of a request on a consistent FAT32 volume.
Main exports: leadsTo, Atomic, rename_atomic
-/
import MainDob.Proofs.BlockWrites
import MainDob.Proofs.DirRooms
import MainDob.Proofs.PathWalks

namespace MainDob.Fs.Fat

open List Option Function

/-! ### Records are shown once -/

theorem located_places {cluster : Nat} : ∀ {slots : List Slot} {index : Nat}
    {found : Found}, found ∈ located cluster slots index → index ≤ found.index
  | [], _, _, member => by cases member
  | slot :: rest, index, found, member => by
    rcases mem_cons.mp member with rfl | later
    · exact le_refl _
    · exact Nat.le_of_succ_le (located_places later)

theorem located_nodup (cluster : Nat) : ∀ (slots : List Slot) (index : Nat),
    (located cluster slots index).Nodup
  | [], _ => nodup_nil
  | slot :: rest, index => by
    refine nodup_cons.mpr ⟨fun member => ?_, located_nodup cluster rest _⟩
    exact Nat.not_succ_le_self index (located_places member)

/-- A record of a chain lies in one of its clusters. -/
theorem mem_records {v : Volume} : ∀ {cs : List Nat} {found : Found},
    found ∈ records v cs → found.cluster ∈ cs
  | [], _, member => by cases member
  | cluster :: rest, found, member => by
    have head := records_split v cluster rest []
    rw [nil_append] at head
    rw [head] at member
    rcases mem_append.mp member with inner | later
    · cases inner
    rcases mem_append.mp later with here | later
    · rw [(mem_located here).2]
      exact mem_cons_self
    · exact mem_cons_of_mem _ (mem_records later)

theorem records_nodup (v : Volume) : ∀ {cs : List Nat}, cs.Nodup → (records v cs).Nodup
  | [], _ => nodup_nil
  | cluster :: rest, distinct => by
    obtain ⟨fresh, distinct'⟩ := nodup_cons.mp distinct
    have head := records_split v cluster rest []
    rw [nil_append] at head
    rw [head]
    refine nodup_append.mpr ⟨nodup_nil, ?_, fun _ member => nomatch member⟩
    refine nodup_append.mpr ⟨located_nodup _ _ _, records_nodup v distinct', ?_⟩
    rintro found here _ later rfl
    have inside := mem_records later
    rw [(mem_located here).2] at inside
    exact fresh inside

/-- Reading a directory keeps the order of its entries. -/
theorem listing_sublist : ∀ (entries : List Found) (state : LfnState),
    ((listing entries state).map Shown.found).Sublist entries
  | [], _ => List.Sublist.refl _
  | found :: rest, state => by
    rw [listing]
    split
    · exact nil_sublist _
    split
    · exact (listing_sublist rest _).cons found
    split
    · exact (listing_sublist rest _).cons found
    split
    · exact (listing_sublist rest _).cons found
    · exact (listing_sublist rest _).cons_cons found

variable {dir : Nat}

theorem DirAt.shown_nodup {v : Volume} {cs : List Nat} (dirAt : DirAt v dir cs) :
    ((shown v cs).map Shown.found).Nodup :=
  (listing_sublist _ _).nodup (records_nodup v dirAt.chain.linked.nodup)

/-! ### Names of paths -/

theorem lastSepFrom_bound : ∀ (rest : Path) (index last : Nat),
    lastSepFrom index last rest = last ∨ lastSepFrom index last rest + 1 < index + rest.length
  | [], _, _ => Or.inl rfl
  | c :: rest, index, last => by
    rw [lastSepFrom, length_cons]
    have later := lastSepFrom_bound rest (index + 1) (if c = '/' ∧ rest ≠ [] then index else last)
    rcases later with same | below
    · rw [same]
      by_cases slash : c = '/' ∧ rest ≠ []
      · rw [if_pos slash]
        have some' := length_pos_iff.mpr slash.2
        exact Or.inr (by omega)
      · rw [if_neg slash]
        exact Or.inl rfl
    · exact Or.inr (by omega)

/-- The last component of a path is a name the driver can pass on. -/
theorem way_passable {find : Nat → Path → Option Found} {root : Nat} {path : Path}
    {way : Way} (leads : wayOf find root path = some way) (below : path ≠ ['/'])
    (short : path.length < pathMax) (text : '\x00' ∉ path) : Passable way.name := by
  have tail : ∀ count, count < path.length → Passable (path.drop count) := by
    intro count inside
    refine ⟨?_, ?_, fun member => text (mem_of_mem_drop member)⟩
    · rw [length_drop]
      omega
    · rw [length_drop]
      omega
  have long : path.head? = some '/' → 1 < path.length := by
    intro first
    cases path with
    | nil => cases first
    | cons _ rest =>
      cases first
      cases rest with
      | nil => exact absurd rfl below
      | cons => exact Nat.succ_lt_succ (Nat.succ_pos _)
  unfold wayOf at leads
  by_cases absolute : path.head? ≠ some '/'
  · rw [if_pos absolute] at leads
    cases leads
  have some' := long (Classical.not_not.mp absolute)
  rw [if_neg absolute, if_neg below] at leads
  by_cases flat : lastSep path = 0
  · rw [if_pos flat] at leads
    cases leads
    exact tail 1 some'
  rw [if_neg flat] at leads
  obtain ⟨ends, _, rfl⟩ := map_eq_some_iff.mp leads
  refine tail _ ?_
  have bound := lastSepFrom_bound (path.drop 1) 1 0
  unfold lastSep at flat ⊢
  rw [length_drop] at bound
  omega

/-! ### What a request does -/

/-- The first cluster, the size and the attributes of an entry. -/
def fields (found : Found) : Nat × Nat × Nat :=
  (found.slot.cluster, found.slot.size, found.slot.attr)

/-- What a path resolves to. -/
def leadsTo (v : Volume) (path : Path) : Option (Nat × Nat × Nat) :=
  (resolveFullPath v path).1.map fields

/-- After an error both names are as before; after a success the old one is gone
and the new one is what the old one was. -/
def Atomic (v v' : Volume) (status : Status) (old new : Path) : Prop :=
  if status = .ok then
    leadsTo v' old = none ∧ (leadsTo v old).isSome = true ∧ leadsTo v' new = leadsTo v old
  else leadsTo v' old = leadsTo v old ∧ leadsTo v' new = leadsTo v new

/-- The records once the entry and the parts of its name are marked deleted. -/
def vacated (v : Volume) (entry : Found) : Nat → List Slot :=
  Function.update v.slots entry.cluster (removeAt (v.slots entry.cluster) entry.index)

/-- The records of the new name have room. -/
def HasRoom (v : Volume) (chain : Nat → List Nat) (entry : Found) (target : Way) :
    Prop :=
  HasRun (vacated v entry) (chain target.dir) (lfnCount target.name + 1) ∨ HasFree v

/-- What the server needs so that nothing it leaves unchecked goes wrong: the old
path is not that of the root directory, the long name of the entry begins in the
cluster of the entry, and the name that is stored can be read back. -/
structure Regular (v : Volume) (chain : Nat → List Nat) (old : Path)
    (entry : Found) (source target : Way) : Prop where
  below : old ≠ ['/']
  inOne : ¬Straddles v (chain source.dir) entry
  stored : HasRoom v chain entry target → Storable v target.name
  restored : ¬HasRoom v chain entry target → Readable source.name

/-- The new path does not lead through the entry; and where the new records have
no room, the old path does not either, and the old records find room again. -/
def Undisturbed (v : Volume) (chain : Nat → List Nat) (entry : Found)
    (source target : Way) : Prop :=
  (HasRoom v chain entry target → entry ∉ target.passed) ∧ (¬HasRoom v chain entry target →
    entry ∉ source.passed ∧ HasRun (vacated v entry) (chain source.dir) (lfnCount source.name + 1))

/-- The entry of one name is moved to another that is not there yet. -/
structure Move (v : Volume) (dirs : Nat → Prop) (chain : Nat → List Nat)
    (old new : Path) (entry : Found) (source target : Way) : Prop where
  consistent : Consistent v dirs chain
  safe : pathIsSafe old = true
  safe' : pathIsSafe new = true
  below' : new ≠ ['/']
  leads : wayOf (lookup v chain) v.rootCluster old = some source
  leads' : wayOf (lookup v chain) v.rootCluster new = some target
  here : lookup v chain source.dir source.name = some entry
  unknown : lookup v chain target.dir target.name = none
  passable : Passable source.name
  passable' : Passable target.name
  regular : Regular v chain old entry source target
  written : DirReliable v

variable {name : Path}

namespace Move

variable {v : Volume} {dirs : Nat → Prop} {chain : Nat → List Nat} {old new : Path}
  {entry : Found} {source target : Way}

section

variable (move : Move v dirs chain old new entry source target)
include move

theorem inside :
    dirs source.dir := wayOf_inside move.consistent move.safe move.leads

theorem inside' :
    dirs target.dir := wayOf_inside move.consistent move.safe' move.leads'

theorem other_name (same : target.dir = source.dir) : nameEqCi target.name source.name = false := by
  refine eq_false_of_ne_true (fun hit => ?_)
  have unknown := move.unknown
  unfold lookup at unknown
  rw [firstNamed_same hit, same] at unknown
  exact absurd (unknown.symm.trans move.here) (by simp)

theorem only_here (inside : dirs dir) (found : lookup v chain dir name = some entry) :
    dir = source.dir ∧ nameEqCi name source.name = true := by
  obtain ⟨_, member, rfl, same⟩ := lookup_some move.here
  obtain ⟨_, member', place, same'⟩ := lookup_some found
  have sameDir : dir = source.dir := by
    by_contra apart
    have cluster := mem_records ((listing_sublist _ _).subset
      (mem_map_of_mem (f := Shown.found) member))
    have cluster' := mem_records ((listing_sublist _ _).subset
      (mem_map_of_mem (f := Shown.found) member'))
    rw [place] at cluster'
    exact move.consistent.apart inside move.inside apart _ cluster' cluster
  subst sameDir
  have one := inj_on_of_nodup_map (move.consistent.dirAt inside).shown_nodup member' member place
  subst one
  exact ⟨rfl, nameEqCi_trans same' (nameEqCi_symm same)⟩

end

end Move

/-! ### The directories without the entry -/

/-- Every directory is there, and lookups fail where they found the entry. -/
structure Taken (v v' : Volume) (dirs : Nat → Prop) (chain : Nat → List Nat)
    (entry : Found) : Prop where
  directories : Directories v' dirs chain
  shape : Shape v v'
  table : v'.table = v.table
  slots : v'.slots = vacated v entry
  lost : ∀ {dir name}, dirs dir → lookup v chain dir name = some entry →
    lookup v' chain dir name = none
  kept : ∀ {dir name}, dirs dir → lookup v chain dir name ≠ some entry →
    lookup v' chain dir name = lookup v chain dir name

section

variable {v : Volume} {dirs : Nat → Prop} {chain : Nat → List Nat}

theorem Directories.same {v' : Volume} (directories : Directories v dirs chain) (inside : dirs dir)
    (slots : ∀ cluster ∈ chain dir, v'.slots cluster = v.slots cluster) :
    Orderly v' (chain dir) ∧ ∀ name, lookup v' chain dir name = lookup v chain dir name := by
  have records := records_same slots
  refine ⟨(directories.orderly inside).of_records records, fun name => ?_⟩
  unfold lookup shown
  rw [records]

theorem unmatched {entries : List Shown} {x : Shown} (hit : nameEqCi name x.name = true)
    (others : ∀ y ∈ entries, nameEqCi y.name x.name = false) : firstNamed name entries = none := by
  refine firstNamed_none.mpr (fun y member => eq_false_of_ne_true (fun same => ?_))
  have both := nameEqCi_trans (nameEqCi_symm same) hit
  rw [others y member] at both
  cases both

/-- Removing the moved entry keeps every directory, less that entry. -/
theorem Move.taken {old new : Path} {entry : Found} {source target : Way}
    (move : Move v dirs chain old new entry source target) :
    Taken v (dirRemoveEntry v entry.cluster entry.index).2 dirs chain entry := by
  have consistent := move.consistent
  have inside := move.inside
  have only {dir : Nat} (inside : dirs dir) {name : Path}
      (found : lookup v chain dir name = some entry) := move.only_here inside found
  obtain ⟨x, member, rfl, same⟩ := lookup_some move.here
  have removed := dirRemoveEntry_removed (consistent.dirAt inside)
    move.written (consistent.orderly inside) member move.regular.inOne
  generalize (dirRemoveEntry v x.found.cluster x.found.index).2 = v' at removed ⊢
  have lengths : ∀ cluster, (v'.slots cluster).length = (v.slots cluster).length := by
    intro cluster
    rw [removed.slots]
    refine update_lengths ?_ cluster
    have before := (consistent.dirAt inside).filled _ removed.member
    have after := removed.dirAt.filled _ removed.member
    rw [removed.slots, update_self, Shape.slotsPerCluster removed.shape] at after
    exact after.trans before.symm
  have others : ∀ {dir}, dirs dir → dir ≠ source.dir →
      ∀ cluster ∈ chain dir, v'.slots cluster = v.slots cluster := by
    intro dir inside' apart cluster there
    rw [removed.slots, update_of_ne]
    rintro rfl
    exact consistent.apart inside' inside apart _ there removed.member
  obtain ⟨before, after, whole, rest⟩ := removed.shown
  have distinct := consistent.distinct inside
  rw [whole] at distinct
  obtain ⟨_, behind, across⟩ := pairwise_append.mp distinct
  have front : ∀ y ∈ before, nameEqCi y.name x.name = false :=
    fun y there => across y there x mem_cons_self
  have back : ∀ y ∈ after, nameEqCi y.name x.name = false := by
    intro y there
    refine eq_false_of_ne_true (fun hit => ?_)
    have none := (pairwise_cons.mp behind).1 y there
    rw [nameEqCi_symm hit] at none
    cases none
  refine ⟨⟨?_, ?_, consistent.apart⟩, removed.shape, removed.table, removed.slots, ?_, ?_⟩
  · intro dir inside'
    exact (consistent.dirAt inside').kept removed.shape removed.coherent removed.table lengths
  · intro dir inside'
    by_cases here : dir = source.dir
    · rw [here]
      exact removed.orderly
    · exact (consistent.same inside' (others inside' here)).1
  · intro dir name inside' found
    obtain ⟨rfl, hit⟩ := only inside' found
    unfold lookup
    rw [rest]
    refine unmatched (nameEqCi_trans hit same) (fun y there => ?_)
    exact (mem_append.mp there).elim (front y) (back y)
  · intro dir name inside' other
    by_cases here : dir = source.dir
    · subst here
      have miss : nameEqCi name x.name = false := by
        refine eq_false_of_ne_true (fun hit => other ?_)
        unfold lookup
        rw [whole, ← singleton_append, ← append_assoc]
        exact firstNamed_here (unmatched hit front) hit after
      unfold lookup
      rw [rest, whole, ← singleton_append, ← append_assoc]
      exact (firstNamed_insert miss before after).symm
    · exact (consistent.same inside' (others inside' here)).2 name

/-! ### The directories after an addition -/

theorem dirAddEntry_elsewhere {cs : List Nat} (dirAt : DirAt v dir cs) (reliable : DirReliable v)
    (name : Path) (first size attr : Nat) : Shape v (dirAddEntry v dir name first size attr).2 ∧
    ∀ {other others}, DirAt v other others → (∀ cluster ∈ others, cluster ∉ cs) →
        DirAt (dirAddEntry v dir name first size attr).2 other others ∧ ∀ cluster ∈ others,
        (dirAddEntry v dir name first size attr).2.slots cluster = v.slots cluster := by
  obtain ⟨_, kept⟩ := stored83_some (shown v cs) name
  obtain ⟨shape, coherent, _, addition⟩ := dirAddEntry_addition dirAt reliable
    name first size attr kept
  exact ⟨shape, fun there apart => addition.elsewhere shape coherent there apart⟩

/-- An entry has been added to one of the directories. -/
structure Enriched (v v' : Volume) (dirs : Nat → Prop) (chain chain' : Nat → List Nat)
    (dir : Nat) (name : Path) (found : Found) : Prop where
  shape : Shape v v'
  dirAt : ∀ {other}, dirs other → DirAt v' other (chain' other)
  lookup : ∀ {other}, dirs other → ∀ text, lookup v' chain' other text =
    if other = dir ∧ nameEqCi text name = true then some found
    else Fat.lookup v chain other text

/-- An addition that succeeds adds one entry with the given fields. -/
theorem Directories.added (directories : Directories v dirs chain) (reliable : DirReliable v)
    (inside : dirs dir) (passable : Passable name) (unknown : lookup v chain dir name = none)
    {slot : Slot} (entry : slot.attr.testBit 3 = false) (storable : Storable v name)
    (ok : (dirAddEntry v dir name slot.cluster slot.size slot.attr).1 = true) :
    ∃ chain' found, Enriched v
      (dirAddEntry v dir name slot.cluster slot.size slot.attr).2 dirs chain chain'
      dir name found ∧ fields found = (slot.cluster, slot.size, slot.attr) := by
  have dirAt := directories.dirAt inside
  obtain ⟨shape, elsewhere⟩ := dirAddEntry_elsewhere dirAt reliable name slot.cluster
    slot.size slot.attr
  obtain ⟨cs', found, gained⟩ := dirAddEntry_gains dirAt reliable
    (directories.orderly inside) passable unknown entry storable ok
  obtain ⟨cluster, size, attr⟩ := gained.fields
  refine ⟨Function.update chain dir cs', found, ⟨shape, ?_, ?_⟩, ?_⟩
  · intro other inside'
    by_cases here : other = dir
    · subst here
      rw [update_self]
      exact gained.dirAt
    · rw [update_of_ne here]
      exact (elsewhere (directories.dirAt inside') (directories.apart inside' inside here)).1
  · intro other inside' text
    unfold lookup
    by_cases here : other = dir
    · subst here
      rw [update_self, gained.lookup]
      by_cases hit : nameEqCi text name = true
      · rw [if_pos hit, if_pos ⟨rfl, hit⟩]
      · rw [if_neg hit, if_neg (fun both => hit both.2)]
    · rw [update_of_ne here, if_neg (fun both => here both.1)]
      exact (directories.same inside' (elsewhere (directories.dirAt inside')
        (directories.apart inside' inside here)).2).2 text
  · unfold fields
    rw [cluster, size, attr]

theorem Directories.of_seen {v' : Volume} (directories : Directories v dirs chain)
    (seen : Seen v v') : Directories v' dirs chain where
  dirAt := fun inside => (directories.dirAt inside).of_seen seen
  orderly := fun inside => (directories.orderly inside).of_records (records_seen seen _)
  apart := directories.apart

/-- Nothing has been added: the directories are as they were. -/
structure Unchanged (v v' : Volume) (dirs : Nat → Prop) (chain : Nat → List Nat) :
    Prop where
  shape : Shape v v'
  directories : Directories v' dirs chain
  table : v'.table = v.table
  runs : ∀ others total, HasRun v'.slots others total ↔ HasRun v.slots others total
  lookup : ∀ {dir}, dirs dir → ∀ name, lookup v' chain dir name = Fat.lookup v chain dir name

theorem Unchanged.of_seen {v' v'' : Volume} (unchanged : Unchanged v v' dirs chain)
    (seen : Seen v' v'') : Unchanged v v'' dirs chain where
  shape := unchanged.shape.trans seen.toShape
  directories := unchanged.directories.of_seen seen
  table := seen.table.trans unchanged.table
  runs := by
    rw [seen.slots]
    exact unchanged.runs
  lookup := by
    rw [lookup_seen seen]
    exact unchanged.lookup

theorem Unchanged.trans {v' v'' : Volume} (first : Unchanged v v' dirs chain)
    (second : Unchanged v' v'' dirs chain) : Unchanged v v'' dirs chain where
  shape := first.shape.trans second.shape
  directories := second.directories
  table := second.table.trans first.table
  runs := fun others total => (second.runs others total).trans (first.runs others total)
  lookup := fun inside name => (second.lookup inside name).trans (first.lookup inside name)

/-- An addition that fails leaves every directory as it was. -/
theorem Directories.unchanged (directories : Directories v dirs chain)
    (reliable : DirReliable v) (inside : dirs dir) {first size attr : Nat}
    (full : (dirAddEntry v dir name first size attr).1 = false) :
    Unchanged v (dirAddEntry v dir name first size attr).2 dirs chain := by
  have dirAt := directories.dirAt inside
  obtain ⟨shape, elsewhere⟩ := dirAddEntry_elsewhere dirAt reliable name first size attr
  have spared := dirAddEntry_spared dirAt reliable (directories.orderly inside) full
  have others := fun {other} (inside' : dirs other) (apart : other ≠ dir) =>
    elsewhere (directories.dirAt inside') (directories.apart inside' inside apart)
  refine ⟨shape, ⟨?_, ?_, directories.apart⟩, spared.table, spared.runs, ?_⟩
  · intro other inside'
    by_cases here : other = dir
    · subst here
      exact spared.dirAt
    · exact (others inside' here).1
  · intro other inside'
    by_cases here : other = dir
    · subst here
      exact spared.orderly
    · exact (directories.same inside' (others inside' here).2).1
  · intro other inside' text
    by_cases here : other = dir
    · subst here
      unfold lookup
      rw [spared.shown]
    · exact (directories.same inside' (others inside' here).2).2 text

end

/-! ### The two ends of a rename -/

theorem fatFlush_seen {v : Volume} (sound : FatSound v) : Seen v (fatFlush v) := by
  have flushed := fatFlush_flushed sound.coherent sound.reliable
  obtain ⟨coherent, table⟩ := fatFlush_spec sound.coherent sound.reliable
  exact ⟨⟨flushed.toKept, coherent, flushed.hint⟩, table⟩

variable {u w : Volume}

theorem Taken.follows {v : Volume} {dirs : Nat → Prop} {chain : Nat → List Nat} {entry : Found}
    (taken : Taken v u dirs chain entry) (unchanged : Unchanged u w dirs chain) :
    Follows v w dirs chain chain (· = entry) where
  root := unchanged.shape.root.trans taken.shape.root
  dirAt := unchanged.directories.dirAt
  lost := by
    rintro dir name _ inside there rfl
    rw [unchanged.lookup inside]
    exact taken.lost inside there
  kept := by
    intro dir name other inside there apart
    refine ⟨other, ?_, rfl, rfl⟩
    rw [unchanged.lookup inside, taken.kept inside, there]
    rw [there]
    exact fun same => apart (Option.some.inj same)

namespace Move

variable {v : Volume} {dirs : Nat → Prop} {chain : Nat → List Nat} {old new : Path}
  {entry : Found} {source target : Way}

section

variable (move : Move v dirs chain old new entry source target)
include move

theorem kind : entry.slot.attr.testBit 3 = false := by
  obtain ⟨_, member, rfl, _⟩ := lookup_some move.here
  obtain ⟨_, _, _, live, _⟩ := listing_member member
  exact eq_false_of_ne_true (entry_iff.mp live).2.2.2

theorem before : leadsTo v old = some (fields entry) ∧ leadsTo v new = none := by
  have first := (resolveFullPath_way move.consistent move.safe move.regular.below).1
  have second := (resolveFullPath_way move.consistent move.safe' move.below').1
  rw [move.leads, bind_some, move.here] at first
  rw [move.leads', bind_some, move.unknown] at second
  unfold leadsTo
  rw [first, second]
  exact ⟨rfl, rfl⟩

end

variable {found : Found}

theorem free (move : Move v dirs chain old new entry source target)
    (there : lookup v chain dir name = some found) :
    ¬(dir = target.dir ∧ nameEqCi name target.name = true) := by
  rintro ⟨rfl, hit⟩
  have unknown := move.unknown
  unfold lookup at there unknown
  rw [firstNamed_same hit, unknown] at there
  cases there

variable {chain' : Nat → List Nat}

section

variable (move : Move v dirs chain old new entry source target)
include move

/-- Every path but those through the removed entry leads where it led. -/
theorem follows_enriched (taken : Taken v u dirs chain entry)
    (enriched : Enriched u w dirs chain chain' target.dir target.name found) :
    Follows v w dirs chain chain' (· = entry) where
  root := enriched.shape.root.trans taken.shape.root
  dirAt := enriched.dirAt
  lost := by
    rintro dir name _ inside there rfl
    rw [enriched.lookup inside, if_neg (move.free there)]
    exact taken.lost inside there
  kept := by
    intro dir name other inside there apart
    refine ⟨other, ?_, rfl, rfl⟩
    rw [enriched.lookup inside, if_neg (move.free there), taken.kept inside, there]
    rw [there]
    exact fun same => apart (Option.some.inj same)

/-- With the old entry back, every path leads where it led. -/
theorem follows_restored (root : w.rootCluster = v.rootCluster) (taken : Taken v u dirs chain entry)
    (dirAt : ∀ {dir}, dirs dir → DirAt w dir (chain' dir))
    (found' : ∀ {dir}, dirs dir → ∀ text, lookup w chain' dir text = if dir = source.dir ∧
      nameEqCi text source.name = true then some found else lookup u chain dir text)
      (same : fields found = fields entry) : Follows v w dirs chain chain' (fun _ => False) where
  root := root
  dirAt := dirAt
  lost := fun _ _ never => never.elim
  kept := by
    intro dir name other inside there _
    rw [found' inside]
    by_cases here : dir = source.dir ∧ nameEqCi name source.name = true
    · obtain ⟨rfl, hit⟩ := here
      have entry' := move.here
      unfold lookup at there entry'
      rw [firstNamed_same hit, entry'] at there
      obtain rfl := Option.some.inj there
      obtain ⟨cluster, rest⟩ := Prod.mk.inj same
      obtain ⟨_, attr⟩ := Prod.mk.inj rest
      rw [if_pos ⟨rfl, hit⟩]
      refine ⟨found, rfl, cluster, ?_⟩
      unfold Slot.directory
      rw [attr]
    · rw [if_neg here, taken.kept inside, there]
      · exact ⟨other, rfl, rfl, rfl⟩
      · intro entry'
        exact here (move.only_here inside entry')

theorem lost_old (follows : Follows v w dirs chain chain' (· = entry)) : leadsTo w old = none := by
  obtain ⟨arrives, fails⟩ := resolveFullPath_follows move.consistent follows move.safe
    move.regular.below move.leads
  unfold leadsTo
  by_cases through : entry ∈ source.passed
  · rw [fails ⟨entry, through, rfl⟩]
    rfl
  · rw [arrives (fun other member here => through (here ▸ member)),
      follows.lost move.inside move.here rfl]
    rfl

/-- A rename that answers OK is atomic unless the target lies below the moved entry. -/
theorem atomic_ok (taken : Taken v u dirs chain entry)
    (enriched : Enriched u w dirs chain chain' target.dir target.name found)
    (same : fields found = fields entry) :
    Atomic v (fatFlush w) .ok old new ↔ entry ∉ target.passed := by
  obtain ⟨first, _⟩ := move.before
  have sound := (enriched.dirAt move.inside).sound
  have seen := fatFlush_seen sound
  have follows := (move.follows_enriched taken enriched).of_seen seen
  obtain ⟨arrives, fails⟩ := resolveFullPath_follows move.consistent follows
    move.safe' move.below' move.leads'
  have gone := move.lost_old follows
  have there : entry ∉ target.passed → leadsTo (fatFlush w) new = some (fields entry) := by
    intro outside
    unfold leadsTo
    rw [arrives (fun other member here => outside (here ▸ member)),
      lookup_seen seen, enriched.lookup move.inside', if_pos ⟨rfl, nameEqCi_iff.mpr rfl⟩, ← same]
    rfl
  unfold Atomic
  rw [if_pos rfl, gone, first]
  constructor
  · rintro ⟨_, _, moved⟩ through
    unfold leadsTo at moved
    rw [fails ⟨entry, through, rfl⟩] at moved
    cases moved
  · intro outside
    exact ⟨rfl, rfl, there outside⟩

theorem not_atomic
    (follows : Follows v w dirs chain chain (· = entry)) : ¬Atomic v w .internal old new := by
  unfold Atomic
  rw [if_neg (by decide), move.lost_old follows, move.before.1]
  rintro ⟨never, _⟩
  cases never

/-- A rename that puts the old entry back is atomic. -/
theorem atomic_restored {x : Volume}
    (taken : Taken v u dirs chain entry) (unchanged : Unchanged u w dirs chain)
    (enriched : Enriched w x dirs chain chain' source.dir source.name found)
    (same : fields found = fields entry) : Atomic v (fatFlush x) .internal old new := by
  have lookups : ∀ {dir}, dirs dir → ∀ text, lookup x chain' dir text =
      if dir = source.dir ∧ nameEqCi text source.name = true then some found
      else lookup u chain dir text := by
    intro dir inside text
    rw [enriched.lookup inside, unchanged.lookup inside]
  have root : x.rootCluster = v.rootCluster :=
    enriched.shape.root.trans (unchanged.shape.root.trans taken.shape.root)
  have seen := fatFlush_seen (enriched.dirAt move.inside).sound
  have follows := (move.follows_restored root taken enriched.dirAt lookups same).of_seen seen
  have old' := (resolveFullPath_follows move.consistent follows move.safe
    move.regular.below move.leads).1 (fun _ _ => id)
  have new' := (resolveFullPath_follows move.consistent follows move.safe'
    move.below' move.leads').1 (fun _ _ => id)
  rw [lookup_seen seen, lookups move.inside, if_pos ⟨rfl, nameEqCi_iff.mpr rfl⟩] at old'
  have other : ¬(target.dir = source.dir ∧ nameEqCi target.name source.name = true) := by
    rintro ⟨here, hit⟩
    rw [move.other_name here] at hit
    cases hit
  rw [lookup_seen seen, lookups move.inside', if_neg other,
    taken.kept move.inside' (by rw [move.unknown]; simp), move.unknown] at new'
  unfold Atomic
  rw [if_neg (by decide), move.before.1, move.before.2]
  unfold leadsTo
  rw [old', new', map_some, same]
  exact ⟨rfl, rfl⟩

end

theorem run_fits {cs : List Nat} (dirAt : DirAt w dir cs) {total : Nat}
    (run : HasRun w.slots cs (total + 1)) : total + 1 ≤ slotsPerCluster w := by
  obtain ⟨cluster, member, some'⟩ := run
  obtain ⟨start, found⟩ := isSome_iff_exists.mp some'
  obtain ⟨front, vacant, back, split, _, length, _⟩ := findRun_spec (Nat.succ_pos _) found
  rw [← dirAt.filled cluster member, split, length_append, length_append, length]
  omega

section

variable (move : Move v dirs chain old new entry source target)
include move

/-- Where the new entry has no room, the old one has to fit where it was. -/
theorem atomic_full (taken : Taken v u dirs chain entry) (unchanged : Unchanged u w dirs chain)
    (noRoom : ¬HasRoom v chain entry target) :
    Atomic v (fatFlush (restoreEntry w old entry.slot)) .internal old new ↔ entry ∉
    source.passed ∧ HasRun (vacated v entry) (chain source.dir) (lfnCount source.name + 1) := by
  have follows := taken.follows unchanged
  obtain ⟨seen, arrives, fails⟩ := resolvePath_follows move.consistent follows move.safe move.leads
  have flush := fun {x : Volume} (still : Unchanged u x dirs chain) =>
    (taken.follows still).of_seen (fatFlush_seen (still.directories.dirAt move.inside).sound)
  unfold restoreEntry
  cases walked : resolvePath w old with
  | mk _ w' =>
    rw [walked] at seen arrives fails
    dsimp only at seen arrives fails
    have unchanged' := unchanged.of_seen seen
    by_cases through : entry ∈ source.passed
    · rw [fails ⟨entry, through, rfl⟩]
      refine iff_of_false ?_ (fun both => both.1 through)
      exact move.not_atomic (flush unchanged')
    rw [arrives (fun other member here => through (here ▸ member))]
    have directories := unchanged'.directories
    have reliable := Shape.dirReliable (taken.shape.trans unchanged'.shape) move.written
    have free : ¬HasFree w' := by
      rw [HasFree.congr (unchanged'.table.trans taken.table)
        (unchanged'.shape.limit.trans taken.shape.limit)]
      exact fun free => noRoom (Or.inr free)
    have runs := unchanged'.runs (chain source.dir) (lfnCount source.name + 1)
    rw [taken.slots] at runs
    have room := dirAddEntry_room (directories.dirAt move.inside) reliable
      source.name entry.slot.cluster entry.slot.size entry.slot.attr
    rw [or_iff_left free, runs] at room
    rw [and_iff_right through, ← room]
    by_cases ok : (dirAddEntry w' source.dir source.name entry.slot.cluster
        entry.slot.size entry.slot.attr).1 = true
    · have unknown : lookup w' chain source.dir source.name = none := by
        rw [unchanged'.lookup move.inside]
        exact taken.lost move.inside move.here
      have storable : Storable w' source.name :=
        ⟨run_fits (directories.dirAt move.inside) (runs.mpr (room.mp ok)),
          move.regular.restored noRoom⟩
      obtain ⟨_, _, enriched, same⟩ := directories.added reliable
        move.inside move.passable unknown move.kind storable ok
      exact iff_of_true (move.atomic_restored taken unchanged' enriched same) ok
    · refine iff_of_false ?_ ok
      have full := directories.unchanged reliable move.inside (eq_false_of_ne_true ok)
      exact move.not_atomic (flush (unchanged'.trans full))

/-- A move is atomic exactly when nothing disturbs it. -/
theorem atomic : Atomic v (moveEntry v old entry target.dir target.name).2
        (moveEntry v old entry target.dir target.name).1 old new ↔
      Undisturbed v chain entry source target := by
  have taken := move.taken
  unfold moveEntry
  dsimp only
  generalize (dirRemoveEntry v entry.cluster entry.index).2 = u at taken ⊢
  have reliable := Shape.dirReliable taken.shape move.written
  have unknown : lookup u chain target.dir target.name = none := by
    rw [taken.kept move.inside' (by rw [move.unknown]; simp)]
    exact move.unknown
  have room : (dirAddEntry u target.dir target.name entry.slot.cluster
      entry.slot.size entry.slot.attr).1 = true ↔ HasRoom v chain entry target := by
    refine (dirAddEntry_room (taken.directories.dirAt move.inside') reliable _ _ _ _).trans ?_
    rw [taken.slots, HasFree.congr taken.table taken.shape.limit]
    exact Iff.rfl
  cases result : dirAddEntry u target.dir target.name entry.slot.cluster
      entry.slot.size entry.slot.attr with
  | mk ok w =>
    cases ok with
    | true =>
      have fits := room.mp (by rw [result])
      have storable := move.regular.stored fits
      have storable' : Storable u target.name := by
        unfold Storable
        rw [Shape.slotsPerCluster taken.shape]
        exact storable
      obtain ⟨_, _, enriched, same⟩ := taken.directories.added reliable
        move.inside' move.passable' unknown move.kind storable' (by rw [result])
      rw [result] at enriched
      refine (move.atomic_ok taken enriched same).trans ?_
      exact ⟨fun outside => ⟨fun _ => outside, fun none => absurd fits none⟩,
        fun both => both.1 fits⟩
    | false =>
      have noRoom : ¬HasRoom v chain entry target := by
        intro fits
        have ok := room.mpr fits
        rw [result] at ok
        cases ok
      have unchanged := taken.directories.unchanged reliable move.inside' (by rw [result])
      rw [result] at unchanged
      refine (move.atomic_full taken unchanged noRoom).trans ?_
      exact ⟨fun both => ⟨fun fits => absurd fits noRoom, fun _ => both⟩, fun both => both.2 noRoom⟩

end

end Move

/-! ### Requests -/

/-- What a request that passes all checks is about. -/
structure Accepted (s : Server) (sender : Nat) (payload : Path) (size : Nat)
    (chain : Nat → List Nat) (old new : Path) (entry : Found)
    (source target : Way) : Prop where
  paths : renamePaths payload size = some (old, new)
  allowed : letsThrough s.ctx sender old true = true ∧ letsThrough s.ctx sender new true = true
  found : (resolveFullPath s.vol old).1 = some entry
  leads : wayOf (lookup s.vol chain) s.vol.rootCluster old = some source
  leads' : wayOf (lookup s.vol chain) s.vol.rootCluster new = some target
  unknown : (resolveFullPath s.vol new).1 = none

/-- The request is atomic with respect to its two names.  What a name leads to is
looked up on a disk that takes every write, since a lookup may exchange the window
of the table. -/
def RenameAtomic (s : Server) (sender : Nat) (payload : Path) (size : Nat) : Prop :=
  ∀ old new, renamePaths payload size = some (old, new) →
    Atomic s.vol.perfect (handleRename s sender payload size).2.vol.perfect
      (handleRename s sender payload size).1 old new

/-- The block writes that the request makes succeed. -/
def WritesSucceed (s : Server) (sender : Nat) (payload : Path) (size : Nat) : Prop :=
  WritesAgree s.vol (handleRename s sender payload size).2.vol fun _ _ => true

/-- The server on a disk that takes every write. -/
def Server.perfect (s : Server) : Server := { s with vol := s.vol.perfect }

section

variable {v v' : Volume} {dirs : Nat → Prop} {chain : Nat → List Nat}

theorem resolveFullPath_same (consistent : Consistent v dirs chain) (seen : Seen v v') {path : Path}
    (safe : pathIsSafe path = true) : (resolveFullPath v' path).1 = (resolveFullPath v path).1 ∧
      Seen v (resolveFullPath v path).2 := by
  by_cases top : path = ['/']
  · unfold resolveFullPath
    rw [if_pos top, if_pos top, seen.root]
    exact ⟨rfl, Seen.refl (consistent.dirAt consistent.root).sound.coherent⟩
  · obtain ⟨result, after⟩ := resolveFullPath_way consistent safe top
    refine ⟨?_, after⟩
    rw [(resolveFullPath_way (consistent.of_seen seen) safe top).1, result,
      lookup_seen seen, seen.root]

theorem atomic_error (consistent : Consistent v dirs chain) (seen : Seen v v') {status : Status}
    (error : status ≠ .ok) {old new : Path} (safe : pathIsSafe old = true)
    (safe' : pathIsSafe new = true) : Atomic v v' status old new := by
  unfold Atomic leadsTo
  rw [if_neg error, (resolveFullPath_same consistent seen safe).1,
    (resolveFullPath_same consistent seen safe').1]
  exact ⟨rfl, rfl⟩

theorem hasRoom_seen (seen : Seen v v') (entry : Found) (target : Way) :
    HasRoom v' chain entry target ↔ HasRoom v chain entry target := by
  unfold HasRoom vacated
  rw [seen.slots, HasFree.congr seen.table seen.limit]

/-- What a rename demands depends only on what is seen of the volume. -/
theorem Regular.of_seen {old : Path} {entry : Found} {source target : Way}
    (regular : Regular v chain old entry source target) (seen : Seen v v') :
    Regular v' chain old entry source target where
  below := regular.below
  inOne := by
    rintro ⟨before, after, split, parts, busy⟩
    have same : innerRecords v' before = innerRecords v before :=
      innerRecords_same (fun other _ => by rw [seen.slots])
    rw [seen.slots] at parts
    rw [same] at busy
    exact regular.inOne ⟨before, after, split, parts, busy⟩
  stored := by
    unfold Storable
    rw [hasRoom_seen seen, Shape.slotsPerCluster seen.toShape]
    exact regular.stored
  restored := by
    rw [hasRoom_seen seen]
    exact regular.restored

theorem undisturbed_seen (seen : Seen v v') (entry : Found) (source target : Way) :
    Undisturbed v' chain entry source target ↔ Undisturbed v chain entry source target := by
  unfold Undisturbed
  rw [hasRoom_seen seen]
  unfold vacated
  rw [seen.slots]

/-- `handle_rename` after the checks of the sender. -/
theorem renameEntry_atomic (consistent : Consistent v dirs chain) (written : DirReliable v)
    {old new : Path}
    (safe : pathIsSafe old = true) (safe' : pathIsSafe new = true) (short : old.length < pathMax)
    (short' : new.length < pathMax) (text : '\x00' ∉ old) (text' : '\x00' ∉ new)
    (regular : ∀ {entry source target}, (resolveFullPath v old).1 = some entry →
      wayOf (lookup v chain) v.rootCluster old = some source →
      wayOf (lookup v chain) v.rootCluster new = some target →
      (resolveFullPath v new).1 = none → Regular v chain old entry source target) :
    Atomic v (renameEntry v old new).2 (renameEntry v old new).1 old new ↔
      ∀ entry source target, (resolveFullPath v old).1 = some entry →
        wayOf (lookup v chain) v.rootCluster old = some source →
        wayOf (lookup v chain) v.rootCluster new = some target →
        (resolveFullPath v new).1 = none → Undisturbed v chain entry source target := by
  have still := Seen.refl (consistent.dirAt consistent.root).sound.coherent
  have seen₁ := (resolveFullPath_same consistent still safe).2
  unfold renameEntry
  cases found : resolveFullPath v old with
  | mk entry v₁ =>
  rw [found] at seen₁
  cases entry with
  | none =>
    dsimp only
    refine iff_of_true (atomic_error consistent seen₁ (by decide) safe safe') ?_
    rintro entry _ _ never
    cases never
  | some entry =>
  have consistent₁ := consistent.of_seen seen₁
  obtain ⟨result, seen₂⟩ := resolvePath_way consistent₁ safe'
  rw [lookup_seen seen₁, seen₁.root] at result
  dsimp only
  cases walked : resolvePath v₁ new with
  | mk parent v₂ =>
  rw [walked] at result seen₂
  dsimp only at result seen₂ ⊢
  have seen₂ := seen₁.trans seen₂
  cases leads' : wayOf (lookup v chain) v.rootCluster new with
  | none =>
    rw [leads'] at result
    rw [result]
    dsimp only [map_none]
    refine iff_of_true (atomic_error consistent seen₂ (by decide) safe safe') ?_
    rintro _ _ _ _ _ never
    cases never
  | some target =>
  rw [leads'] at result
  rw [result]
  dsimp only [map_some]
  have consistent₂ := consistent.of_seen seen₂
  obtain ⟨_, seen₃⟩ := resolveFullPath_same consistent₂
    (Seen.refl (consistent₂.dirAt consistent₂.root).sound.coherent) safe'
  have again := (resolveFullPath_same consistent seen₂ safe').1
  cases exists' : resolveFullPath v₂ new with
  | mk there v₃ =>
  rw [exists'] at seen₃ again
  have seen₃ := seen₂.trans seen₃
  rw [← again]
  cases there with
  | some =>
    dsimp only
    refine iff_of_true (atomic_error consistent seen₃ (by decide) safe safe') ?_
    rintro _ _ _ _ _ _ never
    cases never
  | none =>
  have found' : (resolveFullPath v old).1 = some entry := by rw [found]
  have below' : new ≠ ['/'] := by
    rintro rfl
    cases again
  -- the request is accepted: there is a way to the old name, too
  obtain ⟨source, leads⟩ : ∃ source, wayOf (lookup v chain) v.rootCluster old = some source := by
    by_cases top : old = ['/']
    · rw [top]
      exact ⟨_, rfl⟩
    · rw [(resolveFullPath_way consistent safe top).1] at found'
      obtain ⟨source, leads, _⟩ := bind_eq_some_iff.mp found'
      exact ⟨source, leads⟩
  have regular' := regular found' leads leads' again.symm
  have here := found'
  rw [(resolveFullPath_way consistent safe regular'.below).1, leads] at here
  have unknown := again.symm
  rw [(resolveFullPath_way consistent safe' below').1, leads'] at unknown
  have move : Move v₃ dirs chain old new entry source target := {
    consistent := consistent.of_seen seen₃
    safe := safe
    safe' := safe'
    below' := below'
    leads := by
      rw [lookup_seen seen₃, seen₃.root]
      exact leads
    leads' := by
      rw [lookup_seen seen₃, seen₃.root]
      exact leads'
    here := by
      rw [lookup_seen seen₃]
      exact here
    unknown := by
      rw [lookup_seen seen₃]
      exact unknown
    passable := way_passable leads regular'.below short text
    passable' := way_passable leads' below' short' text'
    regular := regular'.of_seen seen₃
    written := Shape.dirReliable seen₃.toShape written }
  have settled := move.atomic
  rw [undisturbed_seen seen₃] at settled
  have names : ∀ path, pathIsSafe path = true → leadsTo v₃ path = leadsTo v path := by
    intro path calm
    unfold leadsTo
    rw [(resolveFullPath_same consistent seen₃ calm).1]
  unfold Atomic at settled ⊢
  rw [names old safe, names new safe'] at settled
  refine settled.trans ⟨?_, fun all => all entry source target rfl leads rfl rfl⟩
  rintro undisturbed other source' target' same leads'' same' _
  cases same
  cases same'
  rw [leads] at leads''
  cases leads''
  exact undisturbed

end

/-- Both paths of a request are short and end at their NUL. -/
theorem renamePaths_text {payload : Path} {size : Nat} {old new : Path}
    (paths : renamePaths payload size = some (old, new)) :
    (old.length < pathMax ∧ '\x00' ∉ old) ∧ new.length < pathMax ∧ '\x00' ∉ new := by
  have copied : ∀ chars : Path, (ipcPath (cString chars)).length < pathMax ∧
      '\x00' ∉ ipcPath (cString chars) := by
    intro chars
    unfold ipcPath
    refine ⟨?_, fun member => ?_⟩
    · rw [length_take]
      unfold pathMax
      omega
    · have holds := mem_takeWhile_imp (mem_of_mem_take member)
      exact absurd holds (by decide)
  unfold renamePaths at paths
  split at paths
  · cases paths
  dsimp only at paths
  split at paths
  · cases paths
  · cases paths
    exact ⟨copied _, copied _⟩

/-- Where the disk takes every write, a request that is regular is atomic exactly
where it is undisturbed. -/
theorem handleRename_atomic {s : Server} {dirs : Nat → Prop} {chain : Nat → List Nat}
    (consistent : Consistent s.vol dirs chain) (written : DirReliable s.vol) {sender : Nat}
    {payload : Path} {size : Nat} (regular : ∀ {old new entry source target},
      Accepted s sender payload size chain old new entry source target →
      Regular s.vol chain old entry source target) : (∀ old new, renamePaths payload size = some
    (old, new) → Atomic s.vol (handleRename s sender payload size).2.vol
        (handleRename s sender payload size).1 old new) ↔ ∀ old new entry source target,
        Accepted s sender payload size chain old new entry source target →
        Undisturbed s.vol chain entry source target := by
  unfold handleRename
  cases paths : renamePaths payload size with
  | none =>
    refine iff_of_true ?_ ?_
    · rintro old new never
      cases never
    · rintro old new _ _ _ accepted
      have never := accepted.paths
      rw [paths] at never
      cases never
  | some both =>
    obtain ⟨old, new⟩ := both
    obtain ⟨⟨short, text⟩, short', text'⟩ := renamePaths_text paths
    dsimp only
    by_cases allowed : letsThrough s.ctx sender old true = true ∧
        letsThrough s.ctx sender new true = true
    · have safe : ∀ {path}, letsThrough s.ctx sender path true = true → pathIsSafe path = true := by
        intro path checks
        unfold letsThrough at checks
        rw [Bool.and_eq_true, Bool.and_eq_true] at checks
        exact checks.1.2
      have settled := renameEntry_atomic consistent written (safe allowed.1)
        (safe allowed.2) short short' text text'
        (fun found leads leads' unknown => regular ⟨paths, allowed, found, leads, leads', unknown⟩)
      rw [allowed.1, allowed.2, if_neg (by decide)]
      constructor
      · intro atomic old' new' entry source target accepted
        have same := accepted.paths
        rw [paths] at same
        cases same
        exact settled.mp (atomic old new rfl) entry source target accepted.found
          accepted.leads accepted.leads' accepted.unknown
      · rintro undisturbed _ _ ⟨⟩
        refine settled.mpr (fun entry source target found leads leads' unknown => ?_)
        exact undisturbed old new entry source target
          ⟨paths, allowed, found, leads, leads', unknown⟩
    · have refused : (!letsThrough s.ctx sender old true ||
          !letsThrough s.ctx sender new true) = true := by
        rw [← Bool.not_and, Bool.not_eq_true']
        exact eq_false_of_ne_true (fun both => allowed ((Bool.and_eq_true _ _).mp both))
      rw [if_pos refused]
      refine iff_of_true ?_ ?_
      · rintro _ _ ⟨⟩
        dsimp only
        exact ⟨rfl, rfl⟩
      · rintro old' new' _ _ _ accepted
        have same := accepted.paths
        rw [paths] at same
        cases same
        exact absurd accepted.allowed allowed

/-- A request whose writes succeed does what it does on a disk that takes every
write. -/
theorem handleRename_perfect {s : Server} {sender : Nat} {payload : Path} {size : Nat}
    (written : WritesSucceed s sender payload size) :
    (handleRename s.perfect sender payload size).1 = (handleRename s sender payload size).1 ∧
      (handleRename s.perfect sender payload size).2.vol =
        (handleRename s sender payload size).2.vol.perfect := by
  unfold WritesSucceed at written
  unfold handleRename at written ⊢
  cases paths : renamePaths payload size with
  | none => exact ⟨rfl, rfl⟩
  | some both =>
    obtain ⟨old, new⟩ := both
    rw [paths] at written
    dsimp only at written ⊢
    by_cases refused : (!letsThrough s.ctx sender old true ||
        !letsThrough s.ctx sender new true) = true
    · have also : (!letsThrough s.perfect.ctx sender old true ||
          !letsThrough s.perfect.ctx sender new true) = true := refused
      rw [if_pos refused, if_pos also]
      exact ⟨rfl, rfl⟩
    · have also : ¬ (!letsThrough s.perfect.ctx sender old true ||
          !letsThrough s.perfect.ctx sender new true) = true := refused
      rw [if_neg refused] at written
      rw [if_neg refused, if_neg also]
      have same := (renameEntry_oblivious old new).same s.vol (fun _ _ => true) written
      have status := congrArg Prod.fst same
      have vol := congrArg Prod.snd same
      exact ⟨status, vol⟩

/-- On a consistent volume, a request whose block writes succeed and that is regular
is atomic exactly where it is undisturbed. -/
theorem rename_atomic {s : Server} {dirs : Nat → Prop} {chain : Nat → List Nat}
    (consistent : Consistent s.vol.perfect dirs chain) {sender : Nat} {payload : Path} {size : Nat}
    (written : WritesSucceed s sender payload size) (regular : ∀ {old new entry source target},
      Accepted s.perfect sender payload size chain old new entry source target →
      Regular s.vol.perfect chain old entry source target) :
    RenameAtomic s sender payload size ↔ ∀ old new entry source target,
        Accepted s.perfect sender payload size chain old new entry source target →
        Undisturbed s.vol.perfect chain entry source target := by
  obtain ⟨status, vol⟩ := handleRename_perfect written
  have settled := handleRename_atomic (s := s.perfect) consistent (fun _ => rfl) regular
  rw [status, vol] at settled
  exact settled

/-! ### Two mounts -/

/-- A secondary mount of a volume. -/
def mountOf (v : Volume) : Server where
  ctx := ⟨true, fun _ => false, fun _ => none⟩
  alive := fun _ => true
  vol := v
  fds := fun _ => Fd.zero

/-- The file `NOTES.TXT` alone. -/
def notesOnly : Volume := rootWith (filesOf ["NOTES   TXT"])

/-- The payload of a request. -/
def renamePayload (old new : String) : Path :=
  old.toList ++ ['\x00'] ++ new.toList ++ ['\x00']

theorem notesOnly_consistent : Consistent notesOnly (· = 2) (fun _ => [2]) where
  dirAt := by
    rintro _ rfl
    exact rootWith_dirAt (by decide)
  orderly := fun _ => rootWith_orderly (by decide) (by decide +kernel)
  apart := by
    rintro _ _ rfl rfl apart
    exact absurd rfl apart
  root := rfl
  down := by
    intro _ x _ member directory
    have files : ∀ x ∈ shown notesOnly [2], Slot.directory x.found.slot = false := by decide +kernel
    rw [files x member] at directory
    cases directory
  distinct := fun _ => by decide +kernel

/-- The same directory on a disk that takes two writes to directories and no more. -/
def notesLast : Volume :=
  { notesOnly with outcome := fun region n => region = .dir && n < 2 }

/-- A rename in the root directory; its two writes are the last that succeed. -/
theorem rename_atomic_plan :
    RenameAtomic (mountOf notesLast) 7 (renamePayload "/NOTES.TXT" "/PLAN.TXT") 21 := by
  have written : WritesSucceed (mountOf notesLast) 7
      (renamePayload "/NOTES.TXT" "/PLAN.TXT") 21 := by
    have made : ∀ region, (handleRename (mountOf notesLast) 7
        (renamePayload "/NOTES.TXT" "/PLAN.TXT") 21).2.vol.writes region =
          if region = .dir then 2 else 0 := by
      intro region
      cases region <;> decide +kernel
    intro region n _ below
    rw [made] at below
    split at below
    next dir =>
      change (decide (region = .dir) && decide (n < 2)) = true
      rw [decide_eq_true dir, decide_eq_true below]
      rfl
    next => cases below
  have facts : ∀ {old new entry source target}, Accepted (mountOf notesOnly) 7
      (renamePayload "/NOTES.TXT" "/PLAN.TXT") 21 (fun _ => [2]) old new entry source target →
      old = "/NOTES.TXT".toList ∧ entry.cluster = 2 ∧ entry.index = 0 ∧
        source = ⟨[], 2, "NOTES.TXT".toList⟩ ∧
        target = ⟨[], 2, "PLAN.TXT".toList⟩ := by
    intro old new entry source target accepted
    have paths : renamePaths (renamePayload "/NOTES.TXT" "/PLAN.TXT") 21 =
        some ("/NOTES.TXT".toList, "/PLAN.TXT".toList) := by decide
    have same := accepted.paths.symm.trans paths
    cases same
    have found : (resolveFullPath notesOnly "/NOTES.TXT".toList).1.map
        (fun entry => (entry.cluster, entry.index)) = some (2, 0) := by decide +kernel
    have found' : (resolveFullPath notesOnly "/NOTES.TXT".toList).1 = some entry := accepted.found
    rw [found', map_some] at found
    obtain ⟨cluster, index⟩ := Prod.mk.inj (Option.some.inj found)
    have leads : wayOf (lookup notesOnly fun _ => [2]) 2 "/NOTES.TXT".toList =
        some ⟨[], 2, "NOTES.TXT".toList⟩ := by decide
    have leads' : wayOf (lookup notesOnly fun _ => [2]) 2 "/PLAN.TXT".toList =
        some ⟨[], 2, "PLAN.TXT".toList⟩ := by decide
    refine ⟨rfl, cluster, index, ?_, ?_⟩
    · exact Option.some.inj (accepted.leads.symm.trans leads)
    · exact Option.some.inj (accepted.leads'.symm.trans leads')
  have room : ∀ {entry : Found}, entry.cluster = 2 → entry.index = 0 →
      HasRoom (mountOf notesOnly).vol (fun _ => [2]) entry ⟨[], 2, "PLAN.TXT".toList⟩ := by
    intro entry cluster index
    refine Or.inl ⟨2, mem_cons_self, ?_⟩
    unfold vacated
    rw [cluster, index, update_self]
    decide +kernel
  have consistent : Consistent (mountOf notesLast).vol.perfect (· = 2) (fun _ => [2]) :=
    notesOnly_consistent
  refine (rename_atomic consistent written ?_).mpr ?_
  · intro old new entry source target accepted
    obtain ⟨rfl, cluster, index, rfl, rfl⟩ := facts accepted
    refine ⟨by decide, ?_, fun _ => by decide +kernel, fun none => absurd (room cluster index) none⟩
    rintro ⟨before, _, split, _, busy⟩
    cases before with
    | nil => cases busy
    | cons _ before =>
      obtain ⟨_, rest⟩ := List.cons.inj split
      cases before <;> cases rest
  · intro old new entry source target accepted
    obtain ⟨_, cluster, index, rfl, rfl⟩ := facts accepted
    exact ⟨fun _ member => (nomatch member), fun none => absurd (room cluster index) none⟩

/-- The same directory, whose first block write fails. -/
def notesStuck : Volume :=
  { notesOnly with outcome := fun region n => region ≠ .dir || n ≠ 0 }

/-- Where the removal cannot be written, the file ends up with two names. -/
theorem rename_atomic_fails :
    Consistent (mountOf notesStuck).vol.perfect (· = 2) (fun _ => [2]) ∧
      ¬RenameAtomic (mountOf notesStuck) 7 (renamePayload "/NOTES.TXT" "/PLAN.TXT") 21 := by
  refine ⟨notesOnly_consistent, fun atomic => ?_⟩
  have settled := atomic "/NOTES.TXT".toList "/PLAN.TXT".toList (by decide)
  have ok : (handleRename (mountOf notesStuck) 7
      (renamePayload "/NOTES.TXT" "/PLAN.TXT") 21).1 = .ok := by decide +kernel
  have still : leadsTo (handleRename (mountOf notesStuck) 7
      (renamePayload "/NOTES.TXT" "/PLAN.TXT") 21).2.vol.perfect "/NOTES.TXT".toList =
        some (0, 0, attrArchive) := by decide +kernel
  unfold Atomic at settled
  rw [if_pos ok, still] at settled
  cases settled.1

end MainDob.Fs.Fat
