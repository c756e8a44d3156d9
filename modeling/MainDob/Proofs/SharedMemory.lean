/-
Purpose: Reference counts of shared memory segments: in every run that never
  unmaps the last mapping of a segment, and never unmaps the pages of a segment
  through sys_munmap, counts, frames and ids agree with the mappings.
Main exports: Mapping, Counted, shared_memory
-/
import MainDob.Proofs.SegmentCore
import MainDob.Proofs.UserHalf

namespace MainDob.Kernel.Shm

open Function (update update_self update_apply update_eq_self update_idem)
open Lib
open Regions
open UserMem
open HandleTable
open List Option

/-- A mapping of the segment with the id: a process and its region. -/
def Mapping (s : State) (ids : Nat → List Nat) (id : Nat) (m : Nat × Nat) :
    Prop :=
  m.2 ∈ ids m.1 ∧ maps id (s.region m.1 m.2) = true

/-- The segment with the id has `n` mappings. -/
def Count (s : State) (ids : Nat → List Nat) (id n : Nat) : Prop :=
  ∃ mappings : List (Nat × Nat), mappings.Nodup ∧ (∀ m, m ∈ mappings ↔ Mapping s ids id m) ∧
    (∀ m ∈ mappings, m.1 < maxProcesses) ∧ mappings.length = n

/-- The count of every segment is the number of its mappings and one for the
table, and there is at least one mapping. -/
structure Counted (s : State) (ids : Nat → List Nat) : Prop where
  core : Core s ids
  counts : ∀ id g, handleTableGet s.table id = some g →
    ∃ n, Count s ids id n ∧ 0 < n ∧ (s.segs g).refcount = n + 1

/-! ### Counting mappings -/

section Counting

variable {s s' : State} {ids ids' : Nat → List Nat} {id n : Nat} {m : Nat × Nat}

theorem Holds.mapping {q : Nat} (holds : Holds s ids q id) : ∃ p, Mapping s ids id (q, p) := by
  obtain ⟨p, member, mapped⟩ := holds
  exact ⟨p, member, mapped⟩

theorem Mapping.holds (mapping : Mapping s ids id m) : Holds s ids m.1 id :=
  ⟨m.2, mapping.1, mapping.2⟩

section

variable (count : Count s ids id n)
include count

theorem Count.congr
    (same : ∀ m, Mapping s' ids' id m ↔ Mapping s ids id m) : Count s' ids' id n := by
  obtain ⟨mappings, distinct, members, bound, length⟩ := count
  exact ⟨mappings, distinct, fun m => (members m).trans (same m).symm, bound, length⟩

theorem Count.add (absent : ¬ Mapping s ids id m)
    (bound : m.1 < maxProcesses) (same : ∀ m', Mapping s' ids' id m' ↔ m' = m ∨ Mapping s ids id m')
    : Count s' ids' id (n + 1) := by
  obtain ⟨mappings, distinct, members, bounds, length⟩ := count
  refine ⟨m :: mappings, ?_, ?_, ?_, ?_⟩
  · exact nodup_cons.mpr ⟨fun member => absent ((members m).mp member), distinct⟩
  · intro m'
    rw [mem_cons, members, same]
  · intro m' member
    rcases mem_cons.mp member with rfl | old
    · exact bound
    · exact bounds m' old
  · rw [length_cons, length]

theorem Count.remove (present : Mapping s ids id m) (same : ∀ m', Mapping s' ids' id m' ↔
    Mapping s ids id m' ∧ m' ≠ m) : Count s' ids' id (n - 1) := by
  obtain ⟨mappings, distinct, members, bounds, length⟩ := count
  have member := (members m).mpr present
  refine ⟨mappings.erase m, distinct.erase m, ?_, ?_, ?_⟩
  · intro m'
    rw [distinct.mem_erase_iff, members, same]
    exact ⟨fun both => ⟨both.2, both.1⟩, fun both => ⟨both.2, both.1⟩⟩
  · exact fun m' inside => bounds m' (mem_of_mem_erase inside)
  · rw [length_erase_of_mem member, length]

theorem Count.two_le {m' : Nat × Nat} (one : Mapping s ids id m)
    (two : Mapping s ids id m') (different : m' ≠ m) : 2 ≤ n := by
  obtain ⟨mappings, distinct, members, _, length⟩ := count
  have short : [m, m'].length ≤ mappings.length := by
    refine (subperm_of_subset ?_ ?_).length_le
    · exact nodup_cons.mpr ⟨by simpa using Ne.symm different, nodup_singleton m'⟩
    intro x member
    rcases mem_cons.mp member with rfl | last
    · exact (members x).mpr one
    · rw [mem_singleton.mp last]
      exact (members m').mpr two
  rw [length] at short
  exact short

theorem Count.small (core : Core s ids) : n ≤ maxProcesses := by
  obtain ⟨mappings, distinct, members, bounds, length⟩ := count
  have once : (mappings.map Prod.fst).Nodup := by
    refine List.Nodup.map_on ?_ distinct
    rintro ⟨q, p⟩ one ⟨q', p'⟩ two equal
    obtain rfl : q = q' := equal
    have first := (members (q, p)).mp one
    have second := (members (q, p')).mp two
    rw [core.once q id p first.1 p' second.1 first.2 second.2]
  have inside : mappings.map Prod.fst ⊆ List.range maxProcesses := by
    intro q member
    obtain ⟨m, inList, rfl⟩ := mem_map.mp member
    exact mem_range.mpr (bounds m inList)
  have le := (subperm_of_subset once inside).length_le
  rw [length_map, length_range, length] at le
  exact le

end

theorem Counted.refcount (counted : Counted s ids) {g : Nat}
    (slot : handleTableGet s.table id = some g) :
    0 < (s.segs g).refcount ∧ (s.segs g).refcount + 1 < refcountSaturated := by
  obtain ⟨n, count, _, refs⟩ := counted.counts id g slot
  have small := count.small counted.core
  simp only [maxProcesses, refcountSaturated] at *
  omega

theorem refcountInc_small (small : n < refcountSaturated) :
    refcountInc n = n + 1 := if_neg (Nat.not_le.mpr small)

theorem refcountDec_small (small : n + 1 < refcountSaturated) :
    refcountDec (n + 1) = (n, decide (n = 0)) := by
  rw [refcountDec, if_neg (Nat.not_le.mpr small), if_neg (Nat.succ_ne_zero n)]
  simp

end Counting

/-! ### Mappings come and go -/

section Edits

variable {s : State} {ids : Nat → List Nat} {ids' : List Nat} {vm : Vm}
variable {pid id n vaddr r : Nat} {frames : List Nat}

theorem Attached.mapping (attached : Attached s.vm vm (ids pid) ids' pid id n vaddr frames)
    (id' : Nat) (m : Nat × Nat) :
    Mapping { s with vm := vm } (update ids pid ids') id' m ↔
      (id' = id ∧ m = (pid, n)) ∨ Mapping s ids id' m := by
  constructor
  · rintro ⟨member, mapped⟩
    rcases attached.region member with ⟨first, second⟩ | ⟨old, same⟩
    · refine .inl ⟨attached.maps.mp ?_, Prod.ext first second⟩
      rw [← first, ← second]
      exact mapped
    · refine .inr ⟨old, ?_⟩
      rw [← maps_congr same]
      exact mapped
  · rintro (⟨rfl, rfl⟩ | ⟨member, mapped⟩)
    · exact ⟨attached.new, attached.maps.mpr rfl⟩
    obtain ⟨still, same⟩ := attached.old member
    refine ⟨still, ?_⟩
    show Shm.maps id' ((vm.procs m.1).space.nodes m.2) = true
    rw [maps_congr same]
    exact mapped

theorem Detached.mapping (detached : Detached s.vm vm (ids pid) ids' pid r)
    (id' : Nat) (m : Nat × Nat) :
    Mapping { s with vm := vm } (update ids pid ids') id' m ↔
      Mapping s ids id' m ∧ m ≠ (pid, r) := by
  constructor
  · rintro ⟨member, mapped⟩
    obtain ⟨old, other, same⟩ := detached.region member
    refine ⟨⟨old, ?_⟩, ?_⟩
    · rw [← maps_congr same]
      exact mapped
    · rintro rfl
      exact other ⟨rfl, rfl⟩
  · rintro ⟨⟨member, mapped⟩, different⟩
    have still := detached.old member fun both => different (Prod.ext both.1 both.2)
    obtain ⟨_, _, same⟩ := detached.region still
    refine ⟨still, ?_⟩
    show maps id' ((vm.procs m.1).space.nodes m.2) = true
    rw [maps_congr same]
    exact mapped

theorem Core.findMapping (core : Core s ids) (q id : Nat) : ∃ found, Shm.findMapping
    (s.vm.procs q).space id = some found ∧ ∀ p, found = some p ↔ Mapping s ids id (q, p) := by
  have regular := core.regular q
  refine ⟨(ids q).find? fun p => maps id (s.region q p), ?_, fun p => ?_⟩
  · rw [Shm.findMapping, regular.tracks.links.head]
    exact mappingWalk_spec (maps id) regular.tracks.links.forward regular.tracks.reach
  · rw [find?_eq_some_iff_of_unique]
    · rfl
    · intro p pIn p' pIn' one two
      exact core.once q id p pIn p' pIn' one two

theorem Counted.congr {s' : State} {ids'' : Nat → List Nat} (counted : Counted s ids)
    (core : Core s' ids'') (gets : ∀ id, handleTableGet s'.table id = handleTableGet s.table id)
    (refs : ∀ g ∈ s.live, (s'.segs g).refcount = (s.segs g).refcount)
    (same : ∀ id m, Mapping s' ids'' id m ↔ Mapping s ids id m) : Counted s' ids'' where
  core := core
  counts id g slot := by
    rw [gets] at slot
    obtain ⟨n, count, pos, equal⟩ := counted.counts id g slot
    refine ⟨n, count.congr (same id), pos, ?_⟩
    rw [refs g (counted.core.slots id g slot), equal]

end Edits

/-! ### The operations -/

section Operations

variable {s s' : State} {ids : Nat → List Nat} {pid id g : Nat}
variable {node : Option Nat}

theorem Core.setRefcount (core : Core s ids) (g value : Nat) :
    Core (s.setSeg g { s.segs g with refcount := value }) ids := by
  refine core.congr rfl rfl (fun _ => Iff.rfl) (fun _ h => h) core.table
    (fun _ => rfl) rfl fun h _ => ?_
  simp only [State.setSeg, update_apply]
  split
  · next same => rw [same]
  · rfl

theorem setSeg_same : s.setSeg g { s.segs g with refcount :=
    (s.segs g).refcount } = s := by
  unfold State.setSeg
  rw [update_eq_self]

theorem setSeg_setSeg {one two : Segment} : (s.setSeg g one).setSeg g two = s.setSeg g two := by
  unfold State.setSeg
  rw [update_idem]

@[simp] theorem setSeg_self {seg : Segment} : (s.setSeg g seg).segs g = seg := by
  simp [State.setSeg]

theorem setSeg_other {seg : Segment} {h : Nat} (other : h ≠ g) :
    (s.setSeg g seg).segs h = s.segs h := by
  simp [State.setSeg, other]

theorem Counted.attach (counted : Counted s ids) {vm : Vm} {ids' : List Nat}
    {n vaddr : Nat} (slot : handleTableGet s.table id = some g)
    (absent : ¬ Holds s ids pid id) (bound : pid < maxProcesses)
    (attached : Attached s.vm vm (ids pid) ids' pid id n vaddr (s.segs g).frames) :
    Counted { s.setSeg g { s.segs g with refcount :=
      (s.segs g).refcount + 1 } with vm := vm }
      (update ids pid ids') := by
  have core : Core { s with vm := vm } (update ids pid ids') :=
    counted.core.attach slot absent attached
  constructor
  case core => exact core.setRefcount g _
  case counts =>
    intro id' h slot'
    obtain ⟨k, count, pos, refs⟩ := counted.counts id' h slot'
    by_cases same : id' = id
    · subst same
      rw [show handleTableGet s.table id' = some h from slot'] at slot
      cases slot
      refine ⟨k + 1, count.add (m := (pid, n)) ?_ bound fun m => ?_, Nat.succ_pos k, ?_⟩
      · exact fun mapping => absent mapping.holds
      · refine (attached.mapping id' m).trans ?_
        simp
      · show ((s.setSeg g _).segs g).refcount = _
        rw [setSeg_self, refs]
    · have other : h ≠ g := by
        rintro rfl
        exact same (counted.core.slotOnce id' id h slot' slot)
      refine ⟨k, count.congr fun m => ?_, pos, ?_⟩
      · refine (attached.mapping id' m).trans ?_
        simp [same]
      · show ((s.setSeg g _).segs h).refcount = _
        rw [setSeg_other other, refs]

theorem Counted.map (counted : Counted s ids) {out : Option Nat} (bound : pid < maxProcesses)
    (isFresh : ∀ p, node = some p → p ∉ (s.vm.procs pid).space.live)
    (result : shmMap s pid id node = some (s', out)) : ∃ ids', Counted s' ids' := by
  unfold shmMap at result
  cases slot : handleTableGet s.table id with
  | none =>
    rw [slot] at result
    cases result
    exact ⟨ids, counted⟩
  | some g =>
    obtain ⟨found, search, members⟩ := counted.core.findMapping pid id
    rw [slot] at result
    dsimp only at result
    rw [search, bind_some] at result
    cases found with
    | some =>
      cases result
      exact ⟨ids, counted⟩
    | none =>
      obtain ⟨_, small⟩ := counted.refcount slot
      have inc := refcountInc_small (Nat.lt_of_succ_lt small)
      rw [inc] at result
      have absent : ¬ Holds s ids pid id := by
        intro holds
        obtain ⟨p, mapping⟩ := holds.mapping
        exact nomatch (members p).mpr mapping
      have frames : ((s.setSeg g { s.segs g with refcount :=
          (s.segs g).refcount + 1 }).segs g).frames =
          (s.segs g).frames := by
        rw [setSeg_self]
      rcases mapInto_spec (s := s.setSeg g { s.segs g with refcount :=
          (s.segs g).refcount + 1 }) (g := g) id
          (counted.core.regular pid)
          (by rw [frames]
              exact (counted.core.frames g (counted.core.slots id g slot)).1) isFresh with
        failed | ⟨n, vm, ids', vaddr, done, notZero, _, attached⟩
      · rw [failed] at result
        cases result
        rw [setSeg_self]
        rw [refcountDec_small small, setSeg_setSeg, setSeg_same]
        exact ⟨ids, counted⟩
      · rw [done, map_some] at result
        simp only [notZero, if_false] at result
        cases result
        rw [frames] at attached
        exact ⟨_, counted.attach slot absent bound attached⟩

/-- Another process has a mapping of the segment too. -/
def Shares (s : State) (ids : Nat → List Nat) (pid id : Nat) : Prop :=
  ∃ q, q ≠ pid ∧ Holds s ids q id

theorem Counted.unmap (counted : Counted s ids) (holds : Holds s ids pid id)
    (shares : Shares s ids pid id) : ∃ s' ids', shmUnmap s pid id = some (s', true) ∧
    Counted s' ids' ∧ (∀ q id', Holds s' ids' q id' ↔ Holds s ids q id' ∧ ¬ (q = pid ∧ id' = id)) ∧
      (ids pid).length = (ids' pid).length + 1 := by
  obtain ⟨r, mapping⟩ := holds.mapping
  obtain ⟨found, search, members⟩ := counted.core.findMapping pid id
  have here : found = some r := (members r).mpr mapping
  subst here
  obtain ⟨id', g, mapped, slot, pages, _⟩ := counted.core.backed pid r
    mapping.1 (maps_shared mapping.2)
  obtain rfl : id' = id := maps_unique mapped mapping.2
  obtain ⟨vm, ids', done, detached, gone, free⟩ := unmapFrom_spec (r := r)
    (counted.core.regular pid) mapping.1 (counted.core.inside pid r mapping.1) pages
  obtain ⟨n, count, pos, refs⟩ := counted.counts id' g slot
  have two : 2 ≤ n := by
    obtain ⟨_, other, held⟩ := shares
    obtain ⟨_, mapping'⟩ := held.mapping
    exact count.two_le mapping mapping' fun same => other (congrArg Prod.fst same)
  have dec : refcountDec (s.segs g).refcount = (n, false) := by
    have small := (counted.refcount slot).2
    rw [refs] at small ⊢
    rw [refcountDec_small (Nat.lt_of_succ_lt small)]
    simp only [Prod.mk.injEq, decide_eq_false_iff_not, true_and]
    omega
  have released : segmentRelease { s with vm := vm } g =
      { s.setSeg g { s.segs g with refcount := n } with vm := vm } := by
    unfold segmentRelease
    rw [dec]
    rfl
  have core : Core { s with vm := vm } (update ids pid ids') :=
    counted.core.detach detached (fun _ => gone) fun f isFree => by
      rw [free] at isFree
      exact .inl isFree
  refine ⟨{ s.setSeg g { s.segs g with refcount := n } with vm := vm },
    update ids pid ids', ?_, ⟨?_, ?_⟩, ?_, ?_⟩
  · unfold shmUnmap
    rw [search, bind_some, slot]
    dsimp only
    rw [show ((s.vm.procs pid).space.nodes r).base = (s.region pid r).base from
      rfl, done, map_some, released]
  · exact core.setRefcount g n
  · intro id'' h slot'
    obtain ⟨k, count', pos', refs'⟩ := counted.counts id'' h slot'
    by_cases same : id'' = id'
    · subst same
      rw [show handleTableGet s.table id'' = some h from slot'] at slot
      cases slot
      refine ⟨n - 1, count.remove mapping (detached.mapping id''), by omega, ?_⟩
      rw [setSeg_self]
      show n = n - 1 + 1
      omega
    · have other : h ≠ g := by
        rintro rfl
        exact same (counted.core.slotOnce id'' id' h slot' slot)
      refine ⟨k, count'.congr fun m => ?_, pos', ?_⟩
      · refine (detached.mapping id'' m).trans ⟨fun both => both.1, fun old => ?_⟩
        refine ⟨old, ?_⟩
        rintro rfl
        exact same (maps_unique old.2 mapping.2)
      · show ((s.setSeg g _).segs h).refcount = _
        rw [setSeg_other other, refs']
  · intro q id''
    constructor
    · intro held
      obtain ⟨p, mapping'⟩ := held.mapping
      obtain ⟨old, different⟩ := (detached.mapping id'' (q, p)).mp mapping'
      refine ⟨old.holds, ?_⟩
      rintro ⟨rfl, rfl⟩
      refine different (Prod.ext rfl ?_)
      exact counted.core.once q id'' p old.1 r mapping.1 old.2 mapping.2
    · rintro ⟨held, other⟩
      obtain ⟨p, mapping'⟩ := held.mapping
      refine Mapping.holds (m := (q, p)) ((detached.mapping id'' (q, p)).mpr ⟨mapping', ?_⟩)
      intro same
      obtain ⟨rfl, rfl⟩ := Prod.mk.inj same
      exact other ⟨rfl, maps_unique mapping'.2 mapping.2⟩
  · rw [update_self]
    exact detached.removed.shorter

theorem Core.findShared (core : Core s ids) (q : Nat) :
    ∃ found, Shm.findShared (s.vm.procs q).space = some found ∧
      ∀ c, found = some c → c ∈ ids q ∧ s.flagged q c vregShared := by
  have regular := core.regular q
  refine ⟨(ids q).find? fun p => (s.region q p).has vregShared, ?_, ?_⟩
  · rw [Shm.findShared, regular.tracks.links.head]
    exact mappingWalk_spec (fun r => r.has vregShared)
      regular.tracks.links.forward regular.tracks.reach
  · intro c found
    have passed := List.find?_some found
    exact ⟨mem_of_find?_eq_some found, passed⟩

theorem Counted.cleanup {fuel : Nat} (counted : Counted s ids)
    (shares : ∀ id, Holds s ids pid id → Shares s ids pid id) (enough : (ids pid).length < fuel) :
    ∃ s' ids', cleanupLoop pid fuel s = some s' ∧ Counted s' ids' := by
  induction fuel generalizing s ids with
  | zero => cases enough
  | succ _ ih =>
    obtain ⟨found, search, shared⟩ := counted.core.findShared pid
    rw [cleanupLoop, search, bind_some]
    cases found with
    | none => exact ⟨s, ids, rfl, counted⟩
    | some c =>
      obtain ⟨member, flag⟩ := shared c rfl
      obtain ⟨id, g, mapped, _⟩ := counted.core.backed pid c member flag
      have backing : ((s.vm.procs pid).space.nodes c).backingId = (id : Int) := maps_backing mapped
      have holds : Holds s ids pid id := ⟨c, member, mapped⟩
      obtain ⟨s', ids', unmapped, counted', held, shorter⟩ := counted.unmap holds (shares id holds)
      dsimp only
      rw [backing, if_neg (by omega), Int.toNat_natCast, unmapped, bind_some]
      refine ih counted' ?_ (by omega)
      intro id' holds'
      obtain ⟨old, _⟩ := (held pid id').mp holds'
      obtain ⟨q, other, shared'⟩ := shares id' old
      exact ⟨q, other, (held q id').mpr ⟨shared', fun both => other both.1⟩⟩

theorem Counted.munmap (counted : Counted s ids) {virt pages : Nat} {vm : Vm}
    {ok : Bool} (guard : pages ≠ 0 → virt % pageSize = 0 → ∀ r,
      vregionFindExact (s.vm.procs pid).space virt = some (some r) →
      (s.region pid r).has vregFixed = false → ¬ s.flagged pid r vregShared ∧ ∀ i, i < pages →
      ¬ Covers (s.region pid r) (pageAt virt i) → lookup s.vm pid (pageAt virt i) = none)
    (result : sysMunmap s.vm pid virt pages = some (vm, ok)) :
    ∃ ids', Counted { s with vm := vm } ids' := by
  have core := counted.core
  rcases sysMunmap_cases result with ⟨_, rfl⟩ |
    ⟨_, some', aligned, r, search, notFixed, space, n, freed, rfl⟩
  · exact ⟨ids, counted⟩
  obtain ⟨notShared, stays⟩ := guard some' aligned r search notFixed
  have unmaps : Unmaps s.vm _ pid (Named virt pages) _ :=
    unmapUserRange_spec s.vm pid virt pages (!((s.vm.procs pid).space.nodes r).has vregDevice)
  generalize unmapUserRange s.vm pid virt pages
    (!((s.vm.procs pid).space.nodes r).has vregDevice) = x at unmaps freed ⊢
  obtain ⟨found, search', unique⟩ := (core.regular pid).contract.findExact virt
  have here : found = some r := by
    rw [search] at search'
    exact (Option.some.inj search').symm
  obtain ⟨member, base⟩ := (unique r).mp here
  have start : (s.region pid r).base = virt := base
  subst start
  rw [(unmaps.procs pid).1] at freed
  rcases (core.regular pid).removes (s.region pid r).base with
    ⟨_, nowhere⟩ | ⟨k, space', ids', search'', _, freed', removed⟩
  · exact absurd rfl (nowhere r member)
  rw [freed] at freed'
  cases freed'
  rw [search] at search''
  cases search''
  -- a named page that is mapped lies in the region
  have named : ∀ page f, Named (s.region pid r).base pages page →
      lookup s.vm pid page = some f → Covers (s.region pid r) page := by
    rintro _ _ ⟨i, bound, rfl⟩ mapped
    by_contra outside
    rw [stays i bound outside] at mapped
    cases mapped
  have private' : (!(s.region pid r).has vregDevice) = true → ¬ s.flagged pid r vregDevice := by
    intro frees
    simpa [State.flagged] using frees
  have only : (!(s.region pid r).has vregDevice) = true →
      ∀ page f, Named (s.region pid r).base pages page → lookup s.vm pid page = some f →
      ∀ q page', lookup s.vm q page' = some f → q = pid ∧ page' = page :=
    fun frees page f inRange mapped => core.owned pid r member notShared
      (private' frees) page f (named page f inRange mapped) mapped
  have detached : Detached s.vm (x.setSpace pid space) (ids pid) ids' pid
      r := by
    constructor
    case removed =>
      rw [setSpace_self]
      exact removed
    case others =>
      intro q other
      rw [setSpace_other other, (unmaps.procs q).1]
    case fewer =>
      intro q page f found'
      rw [setSpace_lookup] at found'
      exact (unmaps.lookup_some found').2
    case kept =>
      intro q page outside
      rw [setSpace_lookup]
      refine unmaps_outside unmaps ?_ stays outside
      intro page' covered
      exact lt_of_lt_of_le covered.bounds.2 (core.inside pid r member)
    case log =>
      intro f again
      rcases unmaps.log _ again with old | ⟨_, _, _, impossible, _⟩ | ⟨_, _, _, _, _, frees, _⟩
      · exact old
      · cases impossible
      refine unmaps.once frees ?_ f again
      intro page f' inRange mapped
      refine ⟨Bool.eq_false_iff.mpr fun isFree =>
        core.unmapped f' isFree pid page mapped, fun page' _ mapped' => ?_⟩
      exact (only frees page f' inRange mapped pid page' mapped').2
  refine ⟨update ids pid ids', ?_⟩
  refine counted.congr (core.detach detached (fun shared =>
    absurd shared notShared) ?_) (fun _ => rfl) (fun _ _ => rfl) ?_
  · intro f isFree
    rcases (unmaps.freed f).mp isFree with old | ⟨frees, _, page, inRange, mapped⟩
    · exact .inl old
    refine .inr ⟨?_, ?_⟩
    · rintro ⟨g, live, inside⟩
      obtain ⟨_, member', shared, covered⟩ := core.used pid page g live f inside mapped
      rw [covers_unique (core.regular pid) member' member covered
        (named page f inRange mapped)] at shared
      exact notShared shared
    · intro q page' mapped'
      rw [setSpace_lookup] at mapped'
      obtain ⟨outside, was⟩ := unmaps.lookup_some mapped'
      obtain ⟨rfl, rfl⟩ := only frees page f inRange mapped q page' was
      exact outside ⟨inRange, sees_self⟩
  · intro id m
    refine (detached.mapping id m).trans ⟨fun both => both.1, fun old => ?_⟩
    refine ⟨old, ?_⟩
    rintro rfl
    exact notShared (maps_shared old.2)

theorem segmentBuild_cases {pages creator : Nat} {fresh built : Option Nat}
    {array : Bool} {grants : List Nat}
    (result : segmentBuild s pages creator fresh array grants = some (s', built)) :
    (s' = s ∧ built = none) ∨ ∃ vm got all, takeFrames pages grants s.vm [] = some (vm, got, all) ∧
        ((all = false ∧ built = none ∧ s' = { s with vm := got.foldl pmmFreeFrame vm }) ∨
          ∃ g, all = true ∧ fresh = some g ∧ built = some g ∧
            s' = { s.setSeg g ⟨got, 1, creator⟩ with vm := vm, live := g :: s.live }) := by
  cases fresh with
  | none =>
    cases result
    exact .inl ⟨rfl, rfl⟩
  | some g =>
    cases array with
    | false =>
      cases result
      exact .inl ⟨rfl, rfl⟩
    | true =>
      obtain ⟨⟨vm, got, all⟩, taken, equal⟩ := map_eq_some_iff.mp result
      refine .inr ⟨vm, got, all, taken, ?_⟩
      cases all with
      | false =>
        cases equal
        exact .inl ⟨rfl, rfl, rfl⟩
      | true =>
        cases equal
        exact .inr ⟨g, rfl, rfl, rfl, rfl⟩

theorem Counted.restore (counted : Counted s ids) {left : Nat} {grants got : List Nat} {vm : Vm}
    {all : Bool} (taken : takeFrames left grants s.vm [] = some (vm, got, all))
    (given : s'.vm = got.foldl pmmFreeFrame vm) (table : ∃ frees, HandleTable.Inv s'.table frees)
    (gets : ∀ id, handleTableGet s'.table id = handleTableGet s.table id) (live : s'.live = s.live)
    (segs : ∀ h ∈ s.live, s'.segs h = s.segs h) : Counted s' ids := by
  obtain ⟨procs, kernel, log, _, whole, distinct, _, were, free⟩ := takeFrames_spec taken
  subst whole
  obtain ⟨procs', kernel', free', _, once⟩ := freeFrames_spec got vm
  rw [← given] at procs' kernel' free' once
  have sameProcs : s'.vm.procs = s.vm.procs := procs'.trans procs
  refine counted.congr (counted.core.congr sameProcs (kernel'.trans kernel) ?_
    ?_ table gets live fun h member => by rw [segs h member]) gets
    (fun h member => by rw [segs h member]) ?_
  · intro f
    rw [free', free]
    constructor
    · rintro (⟨was, _⟩ | ⟨member, _⟩)
      · exact was
      · exact (were f member).1
    · intro was
      by_cases member : f ∈ got
      · exact .inr ⟨member, (were f member).2⟩
      · exact .inl ⟨was, member⟩
  · intro f again
    rw [← log]
    refine once distinct (fun f' member => ?_) f again
    exact Bool.eq_false_iff.mpr fun isFree => ((free f').mp isFree).2 member
  · intro id m
    rw [Mapping, Mapping, State.region, State.region, sameProcs]

theorem segmentRelease_last (last : (s.segs g).refcount = 1) :
    segmentRelease s g = { s.setSeg g { s.segs g with refcount := 0 } with
        vm := (s.segs g).frames.foldl pmmFreeFrame s.vm
        live := s.live.erase g } := by
  unfold segmentRelease
  rw [last, show refcountDec 1 = (0, true) by decide]
  simp only [if_true, setSeg_self]
  rfl

/-- The state of `shm_create` when the segment is in the table and is about to
be mapped. -/
def published (s : State) (vm : Vm) (g pid : Nat) (got : List Nat) : State :=
  { s.setSeg g ⟨got, 2, pid⟩ with
    vm := vm
    table := (handleTableInsert s.table g).1
    live := g :: s.live }

theorem published_eq {vm : Vm} {got : List Nat} :
    ({ s.setSeg g ⟨got, 1, pid⟩ with
        vm := vm, table := (handleTableInsert s.table g).1,
        live := g :: s.live } : State).setSeg g
      { (({ s.setSeg g ⟨got, 1, pid⟩ with
          vm := vm, table := (handleTableInsert s.table g).1,
          live := g :: s.live } : State).segs g) with
        refcount := refcountInc (({ s.setSeg g ⟨got, 1, pid⟩ with
          vm := vm, table := (handleTableInsert s.table g).1,
          live := g :: s.live } : State).segs g).refcount } =
    published s vm g pid got := by
  simp only [published, State.setSeg, update_self, update_idem]
  rfl

theorem Counted.create (counted : Counted s ids) {size : Nat} {fresh : Option Nat} {array : Bool}
    {grants : List Nat} {out : Option (Nat × Nat)} (bound : pid < maxProcesses)
    (isFresh : ∀ p, node = some p → p ∉ (s.vm.procs pid).space.live) (isNew : ∀ g, fresh = some g →
    g ∉ s.live) (result : shmCreate s pid size fresh array grants node = some (s', out)) :
    ∃ ids', Counted s' ids' := by
  have core := counted.core
  unfold shmCreate at result
  split at result
  · cases result
    exact ⟨ids, counted⟩
  dsimp only at result
  split at result
  · cases result
    exact ⟨ids, counted⟩
  next few =>
  obtain ⟨⟨s₁, built⟩, building, result⟩ := bind_eq_some_iff.mp result
  rcases segmentBuild_cases building with ⟨rfl, rfl⟩ |
    ⟨vm, got, all, taken, ⟨_, rfl, rfl⟩ | ⟨g, rfl, given, rfl, rfl⟩⟩
  · cases result
    exact ⟨ids, counted⟩
  · cases result
    exact ⟨ids, counted.restore taken rfl core.table (fun _ => rfl) rfl fun _ _ => rfl⟩
  have newSeg := isNew g given
  have others : ∀ h ∈ s.live, h ≠ g := by
    rintro h member rfl
    exact newSeg member
  obtain ⟨frees, inv⟩ := core.table
  dsimp only at result
  rcases insert_get inv g with ⟨sameTable, refused⟩ | ⟨id, given', notZero, unused, inv', gets⟩
  · -- the table is full
    rw [show (s.setSeg g ⟨got, 1, pid⟩).table = s.table from rfl, refused, sameTable] at result
    cases result
    rw [segmentRelease_last (by simp [State.setSeg])]
    refine ⟨ids, counted.restore taken ?_ ⟨frees, inv⟩ (fun _ => rfl) ?_ ?_⟩
    · simp [State.setSeg]
    · simp
    · intro h member
      simp [State.setSeg, others h member]
  rw [show (s.setSeg g ⟨got, 1, pid⟩).table = s.table from rfl, given'] at result
  simp only [notZero, if_false] at result
  rw [published_eq] at result
  obtain ⟨procs, kernel, log, new, whole, distinct, count, were, free⟩ := takeFrames_spec taken
  subst whole
  have fewFrames : got.length ≤ shmMaxPages := by
    rw [count rfl]
    omega
  have segs : ∀ h ∈ s.live, (published s vm g pid got).segs h = s.segs h :=
    fun h member => setSeg_other (others h member)
  have own : (published s vm g pid got).segs g = ⟨got, 2, pid⟩ := setSeg_self
  have core' : Core (published s vm g pid got) ids :=
    core.build newSeg distinct fewFrames were procs kernel free log inv'
      unused gets rfl (by rw [own]) fun h member => by rw [segs h member]
  have slot : handleTableGet (published s vm g pid got).table id = some g := by
    rw [show (published s vm g pid got).table =
      (handleTableInsert s.table g).1 from rfl, gets, if_pos rfl]
  have regions : ∀ q p, (published s vm g pid got).region q p = s.region q p := by
    intro q p
    rw [State.region, State.region, show (published s vm g pid got).vm = vm from rfl, procs]
  have nowhere : ∀ m, ¬ Mapping (published s vm g pid got) ids id m := by
    rintro ⟨q, p⟩ ⟨member, mapped⟩
    rw [regions] at mapped
    obtain ⟨_, _, mapped', slot', _⟩ := core.backed q p member (maps_shared mapped)
    rw [maps_unique mapped' mapped, unused] at slot'
    cases slot'
  rcases mapInto_spec (s := published s vm g pid got) (g := g) id
      (core'.regular pid) (by rw [own]; exact fewFrames)
      (by rw [show (published s vm g pid got).vm = vm from rfl, procs]
          exact isFresh) with
    failed | ⟨n, vm', ids', vaddr, done, there, _, attached⟩
  · -- no room in the creator: everything is undone
    rw [failed, map_some] at result
    cases result
    obtain ⟨table, gone⟩ := remove_get inv'.choose_spec slot
    rw [own]
    rw [segmentRelease_last (by simp [State.setSeg]; decide)]
    refine ⟨ids, counted.restore taken ?_ table ?_ ?_ ?_⟩
    · simp [State.setSeg, published]
    · intro id'
      refine (gone id').trans ?_
      split
      · next same => rw [same, unused]
      · next other => rw [gets, if_neg other]
    · simp [published, State.setSeg]
    · intro h member
      simp [State.setSeg, published, others h member]
  · rw [done, map_some] at result
    simp only [there, if_false] at result
    cases result
    have absent : ¬ Holds (published s vm g pid got) ids pid id := by
      intro holds
      obtain ⟨_, mapping⟩ := holds.mapping
      exact nowhere _ mapping
    refine ⟨update ids pid ids', core'.attach slot absent attached, ?_⟩
    intro id' h slot'
    by_cases same : id' = id
    · subst same
      rw [show handleTableGet (published s vm g pid got).table id' = some h from slot'] at slot
      cases slot
      have empty : Count (published s vm g pid got) ids id' 0 :=
        ⟨[], nodup_nil, fun m => ⟨by simp, fun mapping => absurd mapping (nowhere m)⟩, by simp, rfl⟩
      refine ⟨1, empty.add (m := (pid, n)) (nowhere _) bound fun m => ?_, Nat.one_pos, ?_⟩
      · refine (attached.mapping id' m).trans ?_
        simp
      · show ((published s vm g pid got).segs g).refcount = 2
        rw [own]
    · have old : handleTableGet s.table id' = some h := by
        have found : handleTableGet (handleTableInsert s.table g).1 id' = some h := slot'
        rw [gets, if_neg same] at found
        exact found
      obtain ⟨k, count', pos, refs⟩ := counted.counts id' h old
      refine ⟨k, count'.congr fun m => ?_, pos, ?_⟩
      · refine (attached.mapping id' m).trans ?_
        simp only [same, false_and, false_or]
        rw [Mapping, Mapping, regions]
      · show ((published s vm g pid got).segs h).refcount = _
        rw [segs h (core.slots id' h old), refs]

end Operations

/-! ### Every run -/

/-- `find_mapping` finds a mapping of the segment in the process. -/
def Held (s : State) (q id : Nat) : Prop :=
  ∃ r, findMapping (s.vm.procs q).space id = some (some r)

/-- An unmapping or a clean-up leaves a mapping of the segment in another
process; a munmap names a region that is not shared memory, and no mapped page
outside it. -/
def LeavesOne (s : State) : Call → Prop
  | .create .. => True
  | .map .. => True
  | .unmap pid id => Held s pid id → ∃ q, q ≠ pid ∧ Held s q id
  | .cleanup pid => ∀ id, Held s pid id → ∃ q, q ≠ pid ∧ Held s q id
  | .munmap pid virt pages =>
    pages ≠ 0 →
      virt % pageSize = 0 → ∀ r, vregionFindExact (s.vm.procs pid).space virt = some (some r) →
      (s.region pid r).has vregFixed = false → ¬ s.flagged pid r vregShared ∧ ∀ i, i < pages →
        ¬ Covers (s.region pid r) (pageAt virt i) → lookup s.vm pid (pageAt virt i) = none

/-- Processes without shared memory: regular lists of regions in the user half,
the pages of a private region behind frames of their own, and free frames behind
no page. -/
structure Quiet (vm : Vm) (ids : Nat → List Nat) : Prop where
  regular : ∀ q, Regular (vm.procs q).space (ids q)
  inside : ∀ q, ∀ p ∈ ids q, ((vm.procs q).space.nodes p).stop ≤ userSpaceLimit
  unshared : ∀ q, ∀ p ∈ ids q, ((vm.procs q).space.nodes p).has vregShared = false
  unmapped : ∀ f, vm.free f = true → ∀ q page, lookup vm q page ≠ some f
  owned : ∀ q, ∀ p ∈ ids q, ((vm.procs q).space.nodes p).has vregDevice = false →
    ∀ page f, Covers ((vm.procs q).space.nodes p) page →
      lookup vm q page = some f → ∀ q' page', lookup vm q' page' = some f → q' = q ∧ page' = page
  log : vm.log = []

/-- What holds of the segments and of the processes with the regions `ids`. -/
structure Contract (s : State) (ids : Nat → List Nat) : Prop where
  regions : ∀ q, Regular (s.vm.procs q).space (ids q)
  /-- A count is the number of live mappings and one for the table. -/
  counts :
    ∀ id g, handleTableGet s.table id = some g → ∃ mappings : List (Nat × Nat), mappings.Nodup ∧
      (∀ m, m ∈ mappings ↔ Mapping s ids id m) ∧ (s.segs g).refcount = mappings.length + 1
  /-- A shared region shows the frames of a segment of the table. -/
  backed : ∀ q, ∀ p ∈ ids q, s.flagged q p vregShared →
    ∃ id g, Mapping s ids id (q, p) ∧ handleTableGet s.table id = some g ∧ g ∈ s.live ∧
      (s.region q p).pages = (s.segs g).frames.length ∧ ∀ i f, (s.segs g).frames[i]? = some f →
        lookup s.vm q ((s.region q p).base + i * pageSize) = some f
  /-- The frames of a segment are not free, and neither is any that a process
  maps. -/
  taken : (∀ g ∈ s.live, ∀ f ∈ (s.segs g).frames, s.vm.free f = false) ∧
    ∀ q page f, lookup s.vm q page = some f → s.vm.free f = false
  /-- No frame was freed twice. -/
  once : ∀ f, .freed f true ∉ s.vm.log
  /-- A segment that no process maps is gone, and its id with it. -/
  givenBack : ∀ g ∈ s.live, ∃ id m, handleTableGet s.table id = some g ∧ Mapping s ids id m

section Runs

variable {s s' : State} {vm : Vm} {ids : Nat → List Nat}

theorem Core.held (core : Core s ids) {q id : Nat} : Held s q id ↔ Holds s ids q id := by
  obtain ⟨_, search, members⟩ := core.findMapping q id
  constructor
  · rintro ⟨r, here⟩
    rw [search] at here
    have mapping := (members r).mp (Option.some.inj here)
    exact ⟨r, mapping⟩
  · intro holds
    obtain ⟨p, mapping⟩ := holds.mapping
    exact ⟨p, by rw [search, (members p).mpr mapping]⟩

/-- There is some account of the regions for which the counts are right. -/
def HasCounted (s : State) : Prop := ∃ ids, Counted s ids

theorem Counted.step (counted : Counted s ids) {call : Call} (taken : Shm.step s call s')
    (leaves : LeavesOne s call) : HasCounted s' := by
  obtain ⟨executed, _, bound, isFresh, isNew⟩ := taken
  have shares : ∀ {pid id}, (∃ q, q ≠ pid ∧ Held s q id) → Shares s ids pid id := by
    rintro _ _ ⟨q, other, held⟩
    exact ⟨q, other, counted.core.held.mp held⟩
  cases call with
  | create =>
    obtain ⟨⟨_, _⟩, result, rfl⟩ := map_eq_some_iff.mp executed
    exact counted.create bound isFresh isNew result
  | map =>
    obtain ⟨⟨_, _⟩, result, rfl⟩ := map_eq_some_iff.mp executed
    exact counted.map bound isFresh result
  | unmap pid id =>
    obtain ⟨⟨_, _⟩, result, rfl⟩ := map_eq_some_iff.mp executed
    by_cases held : Held s pid id
    · obtain ⟨_, ids', done, counted', _⟩ :=
        counted.unmap (counted.core.held.mp held) (shares (leaves held))
      rw [result] at done
      cases done
      exact ⟨ids', counted'⟩
    -- there is nothing to unmap
    obtain ⟨found, search, _⟩ := counted.core.findMapping pid id
    cases found with
    | some r => exact absurd ⟨r, search⟩ held
    | none =>
      rw [shmUnmap, search, bind_some] at result
      cases slot : handleTableGet s.table id with
      | none | some =>
        rw [slot] at result
        cases result
        exact ⟨ids, counted⟩
  | cleanup pid =>
    obtain ⟨_, ids', done, counted'⟩ := counted.cleanup (fun id holds =>
      shares (leaves id (counted.core.held.mpr holds)))
      (counted.core.regular pid).tracks.reach
    rw [show exec s (.cleanup pid) = _ from done] at executed
    cases executed
    exact ⟨ids', counted'⟩
  | munmap =>
    obtain ⟨⟨_, _⟩, result, rfl⟩ := map_eq_some_iff.mp executed
    exact counted.munmap leaves result

theorem Quiet.counted (quiet : Quiet vm ids) : Counted (Shm.initial vm) ids := by
  have empty : ∀ id, handleTableGet (Shm.initial vm).table id = none := by
    intro id
    unfold handleTableGet
    split <;> rfl
  have unshared : ∀ q, ∀ p ∈ ids q, ¬ (Shm.initial vm).flagged q p vregShared := by
    intro q p member shared
    rw [State.flagged] at shared
    rw [show ((Shm.initial vm).region q p).has vregShared = false from
      quiet.unshared q p member] at shared
    cases shared
  constructor
  case counts =>
    intro id g slot
    rw [empty] at slot
    cases slot
  case core =>
    constructor
    case regular => exact quiet.regular
    case inside => exact quiet.inside
    case table => exact inv_init (by decide) .lifo
    case slots =>
      intro id g slot
      rw [empty] at slot
      cases slot
    case slotOnce =>
      intro id id' g slot
      rw [empty] at slot
      cases slot
    case slotted => exact fun g member => absurd member not_mem_nil
    case distinct => exact nodup_nil
    case frames => exact fun g member => absurd member not_mem_nil
    case apart => exact fun g member => absurd member not_mem_nil
    case backed => exact fun q p member shared => absurd shared (unshared q p member)
    case once =>
      exact fun q id p member p' _ mapped _ => absurd (maps_shared mapped) (unshared q p member)
    case used => exact fun q page g member => absurd member not_mem_nil
    case unmapped => exact quiet.unmapped
    case owned =>
      intro q p member _ notDevice
      exact quiet.owned q p member (Bool.eq_false_iff.mpr notDevice)
    case log =>
      intro f member
      rw [show (Shm.initial vm).vm.log = [] from quiet.log] at member
      cases member

theorem Counted.contract (counted : Counted s ids) : Contract s ids where
  regions := counted.core.regular
  counts id g slot := by
    obtain ⟨_, ⟨mappings, distinct, members, _, length⟩, _, refs⟩ := counted.counts id g slot
    exact ⟨mappings, distinct, members, by rw [refs, length]⟩
  backed q p member shared := by
    obtain ⟨id, g, mapped, slot, rest⟩ := counted.core.backed q p member shared
    exact ⟨id, g, ⟨member, mapped⟩, slot, counted.core.slots id g slot, rest⟩
  taken := by
    refine ⟨fun g member f inside => ((counted.core.frames g member).2 f
      inside).2, fun q page f mapped => ?_⟩
    exact Bool.eq_false_iff.mpr fun isFree => counted.core.unmapped f isFree q page mapped
  once := counted.core.log
  givenBack g member := by
    obtain ⟨id, slot⟩ := counted.core.slotted g member
    obtain ⟨_, ⟨_, _, members, _, length⟩, pos, _⟩ := counted.counts id g slot
    obtain ⟨m, inside⟩ := exists_mem_of_length_pos (length ▸ pos)
    exact ⟨id, m, slot, (members m).mp inside⟩

/-- In every run whose unmappings leave a mapping and whose munmaps keep to
regions that are not shared, counts, frames and ids agree with the mappings. -/
theorem shared_memory {calls : List Call} (quiet : Quiet vm ids) (run : Steps
    (Guarded Shm.step LeavesOne) (Shm.initial vm) calls s) : ∃ ids', Contract s ids' := by
  have kept : HasCounted s := run.invariant (fun _ _ _ old next => by
      obtain ⟨_, counted⟩ := old
      exact counted.step next.1 next.2)
    ⟨ids, quiet.counted⟩
  obtain ⟨ids', counted⟩ := kept
  exact ⟨ids', counted.contract⟩

/-- A test that is enough for a step. -/
def stepCheck (s : State) (call : Call) : Bool :=
  decide call.InRegisters && decide (call.pid < maxProcesses) && (call.node.all fun p =>
    !(s.vm.procs call.pid).space.live.contains p) && (call.segment.all fun g => !s.live.contains g)

theorem stepCheck_sound {call : Call} (passed : stepCheck s call = true) : call.InRegisters ∧
    call.pid < maxProcesses ∧ (∀ p, call.node = some p → p ∉ (s.vm.procs call.pid).space.live) ∧
      ∀ g, call.segment = some g → g ∉ s.live := by
  simp only [stepCheck, Bool.and_eq_true, decide_eq_true_eq] at passed
  obtain ⟨⟨⟨registers, bound⟩, node⟩, segment⟩ := passed
  refine ⟨registers, bound, fun p given member => ?_, fun g given member => ?_⟩
  · rw [given] at node
    simp [member] at node
  · rw [given] at segment
    simp [member] at segment

/-- A test that is enough for `LeavesOne` where a step unmaps at most one of
several mappings, those of the first processes. -/
def leavesCheck (s : State) : Call → Bool
  | .create .. => true
  | .map .. => true
  | .unmap pid id => (List.range 4).any fun q => q != pid &&
      ((findMapping (s.vm.procs q).space id).bind fun found => found).isSome
  | .cleanup _ => false
  | .munmap .. => false

theorem leavesCheck_sound {call : Call} (passed : leavesCheck s call = true) :
    LeavesOne s call := by
  cases call with
  | create | map => trivial
  | unmap =>
    intro _
    obtain ⟨q, _, both⟩ := any_eq_true.mp passed
    obtain ⟨other, found⟩ := Bool.and_eq_true_iff.mp both
    obtain ⟨r, here⟩ := isSome_iff_exists.mp found
    obtain ⟨_, search, same⟩ := bind_eq_some_iff.mp here
    exact ⟨q, bne_iff_ne.mp other, r, by rw [search]; exact congrArg _ same⟩
  | cleanup | munmap => cases passed

theorem bootVm_quiet : Quiet bootVm fun _ => [] where
  regular _ := Regular.initial
  inside _ _ member := nomatch member
  unshared _ _ member := nomatch member
  unmapped f free q page mapped := by
    unfold UserMem.lookup at mapped
    split at mapped
    · cases mapped
    simp only [bootVm, ite_none_right_eq_some, Option.some.injEq] at mapped
    have high := (of_decide_eq_true free).1
    omega
  owned _ _ member := nomatch member
  log := rfl

/-- A process makes a segment of two pages, another one maps it, and the first
unmaps it. -/
def handedOver : List Call :=
  [.create 1 8192 (some 7) true [0x200000, 0x201000] (some 1), .map 2 1 (some 1), .unmap 1 1]

theorem shared_memory_handedOver :
    ∃ s, Steps (Guarded Shm.step LeavesOne) (Shm.initial bootVm) handedOver s ∧
      s.live = [7] ∧ (s.segs 7).refcount = 2 ∧ lookup s.vm 1 0x60000000 = none ∧
      lookup s.vm 2 0x60001000 = some 0x201000 ∧ ∃ ids, Contract s ids := by
  have followed : (followRun (checked exec fun s call => stepCheck s call && leavesCheck s call)
      (Shm.initial bootVm) handedOver).map (fun s =>
        (s.live, (s.segs 7).refcount, lookup s.vm 1 0x60000000, lookup s.vm 2 0x60001000)) =
      some ([7], 2, none, some 0x201000) := by
    decide +kernel
  obtain ⟨s, steps, seen⟩ := Steps.guarded_of_followed (fun passed =>
    And.intro (stepCheck_sound (Bool.and_eq_true_iff.mp passed).1)
      (leavesCheck_sound (Bool.and_eq_true_iff.mp passed).2)) followed
  simp only [Prod.mk.injEq] at seen
  obtain ⟨live, refs, gone, shown⟩ := seen
  have run : Steps (Guarded Shm.step LeavesOne) (Shm.initial bootVm) handedOver s :=
    steps.mono fun _ _ _ taken => ⟨⟨taken.1, taken.2.1⟩, taken.2.2⟩
  exact ⟨s, run, live, refs, gone, shown, shared_memory bootVm_quiet run⟩

/-- A segment is made and unmapped by its only user. -/
def abandoned : List Call :=
  [.create 1 4096 (some 7) true [0x200000] (some 1), .unmap 1 1]

/-- A segment that two processes map is unmapped by munmap in one of them. -/
def pulledAway : List Call :=
  [.create 1 4096 (some 7) true [0x200000] (some 1), .map 2 1 (some 1), .munmap 1 0x60000000 1]

/-- The segment of the first run stays with its id and without a mapping; in the
second run the frame of a segment is free while a process maps it. -/
theorem shared_memory_lost :
    (∃ s, Steps Shm.step (Shm.initial bootVm) abandoned s ∧ ∀ ids, ¬ Contract s ids) ∧
    ∃ s, Steps Shm.step (Shm.initial bootVm) pulledAway s ∧ ∀ ids, ¬ Contract s ids := by
  have leaks : (followRun (checked exec stepCheck) (Shm.initial bootVm) abandoned).map
      (fun s => (s.live, (s.segs 7).refcount)) = some ([7], 1) := by
    decide +kernel
  have pulled : (followRun (checked exec stepCheck) (Shm.initial bootVm) pulledAway).map
      (fun s => (lookup s.vm 2 0x60000000, s.vm.free 0x200000)) = some (some 0x200000, true) := by
    decide +kernel
  obtain ⟨s, run, seen⟩ := Steps.guarded_of_followed stepCheck_sound leaks
  obtain ⟨t, run', seen'⟩ := Steps.guarded_of_followed stepCheck_sound pulled
  simp only [Prod.mk.injEq] at seen seen'
  refine ⟨⟨s, run, fun ids contract => ?_⟩, t, run', fun ids contract => ?_⟩
  · obtain ⟨id, m, slot, mapping⟩ := contract.givenBack 7 (by simp [seen.1])
    obtain ⟨mappings, _, members, refs⟩ := contract.counts id 7 slot
    rw [seen.2] at refs
    have none' : mappings = [] := length_eq_zero_iff.mp (by omega)
    have member := (members m).mpr mapping
    rw [none'] at member
    cases member
  · have taken := contract.taken.2 2 0x60000000 0x200000 seen'.1
    rw [seen'.2] at taken
    cases taken

end Runs

end MainDob.Kernel.Shm
