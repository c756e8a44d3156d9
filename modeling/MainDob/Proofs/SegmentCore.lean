/-
Purpose: The invariant of shared memory apart from the counts: every shared
  region is backed by a segment of the table, the frames of a segment are taken
  and behind shared regions only, and free frames are behind no page.
Main exports: Holds, Core, Core.attach
-/
import MainDob.Proofs.HandleTable
import MainDob.Proofs.SharedMappings

namespace MainDob.Kernel.Shm

open Function (update update_of_ne update_self)
open Regions
open UserMem
open HandleTable
open List

/-- The process has a mapping of the segment with the id. -/
def Holds (s : State) (ids : Nat → List Nat) (q id : Nat) : Prop :=
  ∃ p ∈ ids q, maps id (s.region q p) = true

/-- Regions, pages, segments and frames agree. -/
structure Core (s : State) (ids : Nat → List Nat) : Prop where
  regular : ∀ q, Regular (s.vm.procs q).space (ids q)
  inside : ∀ q, ∀ p ∈ ids q, (s.region q p).stop ≤ userSpaceLimit
  table : ∃ frees, HandleTable.Inv s.table frees
  slots : ∀ id g, handleTableGet s.table id = some g → g ∈ s.live
  slotOnce : ∀ id id' g, handleTableGet s.table id = some g →
    handleTableGet s.table id' = some g → id = id'
  slotted : ∀ g ∈ s.live, ∃ id, handleTableGet s.table id = some g
  distinct : s.live.Nodup
  frames : ∀ g ∈ s.live, (s.segs g).frames.length ≤ shmMaxPages ∧
    ∀ f ∈ (s.segs g).frames, f ≠ 0 ∧ s.vm.free f = false
  apart : ∀ g ∈ s.live, (s.segs g).frames.Nodup ∧ ∀ h ∈ s.live,
    ∀ f ∈ (s.segs g).frames, f ∈ (s.segs h).frames → g = h
  backed : ∀ q, ∀ p ∈ ids q, s.flagged q p vregShared →
    ∃ id g, maps id (s.region q p) = true ∧ handleTableGet s.table id = some g ∧
      (s.region q p).pages = (s.segs g).frames.length ∧ ∀ i f, (s.segs g).frames[i]? = some f →
        lookup s.vm q ((s.region q p).base + i * pageSize) = some f
  once : ∀ q id, ∀ p ∈ ids q, ∀ p' ∈ ids q, maps id (s.region q p) = true →
    maps id (s.region q p') = true → p = p'
  used : ∀ q page, ∀ g ∈ s.live, ∀ f ∈ (s.segs g).frames,
    lookup s.vm q page = some f → ∃ p ∈ ids q, s.flagged q p vregShared ∧ Covers (s.region q p) page
  unmapped : ∀ f, s.vm.free f = true → ∀ q page, lookup s.vm q page ≠ some f
  owned : ∀ q, ∀ p ∈ ids q, ¬ s.flagged q p vregShared → ¬ s.flagged q p vregDevice →
    ∀ page f, Covers (s.region q p) page → lookup s.vm q page = some f →
      ∀ q' page', lookup s.vm q' page' = some f → q' = q ∧ page' = page
  log : ∀ f, .freed f true ∉ s.vm.log

section Maps

variable {r : Vregion} {id id' : Nat}

theorem maps_shared (mapped : maps id r = true) : r.has vregShared = true :=
  (Bool.and_eq_true_iff.mp mapped).1

theorem maps_backing (mapped : maps id r = true) : r.backingId = (id : Int) :=
  beq_iff_eq.mp (Bool.and_eq_true_iff.mp mapped).2

theorem maps_unique (one : maps id r = true) (two : maps id' r = true) : id = id' := by
  have same := (maps_backing one).symm.trans (maps_backing two)
  omega

end Maps

section Edits

variable {s : State} {ids : Nat → List Nat} {ids' : List Nat} {vm : Vm}
variable {pid id n vaddr g r q p : Nat} {frames : List Nat}

section

variable (attached : Attached s.vm vm (ids pid) ids' pid id n vaddr frames)
include attached

theorem Attached.region (member : p ∈ update ids pid ids' q) :
    (q = pid ∧ p = n) ∨ (p ∈ ids q ∧ SameRegion (s.region q p) ((vm.procs q).space.nodes p)) := by
  by_cases self : q = pid
  · subst self
    rw [update_self] at member
    rcases (attached.added.members p).mp member with new | old
    · exact .inl ⟨rfl, new⟩
    · exact .inr ⟨old, attached.added.others p old⟩
  · rw [update_of_ne self] at member
    refine .inr ⟨member, ?_⟩
    rw [attached.others q self]
    exact .refl _

theorem Attached.old (member : p ∈ ids q) : p ∈ update ids pid ids' q ∧
      SameRegion (s.region q p) ((vm.procs q).space.nodes p) := by
  by_cases self : q = pid
  · subst self
    rw [update_self]
    exact ⟨(attached.added.members p).mpr (.inr member), attached.added.others p member⟩
  · rw [update_of_ne self, attached.others q self]
    exact ⟨member, .refl _⟩

theorem Attached.new : n ∈ update ids pid ids' pid := by
  rw [update_self]
  exact (attached.added.members n).mpr (.inl rfl)

theorem Attached.covers {page : Nat} : Covers ((vm.procs pid).space.nodes n) page ↔
      ∃ i, i < frames.length ∧ page = vaddr + i * pageSize :=
  Covers.congr attached.added.node

theorem Attached.maps
    {id' : Nat} : Shm.maps id' ((vm.procs pid).space.nodes n) = true ↔ id' = id := by
  rw [maps_congr attached.added.node]
  simp only [Shm.maps, Vregion.has, Bool.and_eq_true, beq_iff_eq]
  constructor
  · rintro ⟨_, same⟩
    omega
  · rintro rfl
    exact ⟨by decide, rfl⟩

theorem Attached.outside (member : p ∈ ids q) {page : Nat} (covered : Covers (s.region q p) page) :
    lookup vm q page = lookup s.vm q page := by
  refine attached.kept q page ?_
  rintro ⟨rfl, new⟩
  have here := attached.covers.mpr new
  have there := (Covers.congr (attached.added.others p member)).mpr covered
  have same := covers_unique attached.added.regular ((attached.added.members p).mpr (.inr member))
    ((attached.added.members n).mpr (.inl rfl)) there here
  rw [same] at member
  exact attached.added.fresh member

end

theorem flagged_congr (s' : State) {flag : Nat} (same : SameRegion (s.region q p) (s'.region q p)) :
    s'.flagged q p flag ↔ s.flagged q p flag := by
  unfold State.flagged
  rw [same.has]

/-- A shared region that stays, with its pages, stays backed. -/
theorem Core.backed_kept (core : Core s ids) (old : p ∈ ids q)
    (same : SameRegion (s.region q p) ((vm.procs q).space.nodes p))
    (kept : ∀ {page}, Covers (s.region q p) page → lookup vm q page = lookup s.vm q page)
    (shared : { s with vm := vm }.flagged q p vregShared) : ∃ id g,
      Shm.maps id ((vm.procs q).space.nodes p) = true ∧ handleTableGet s.table id = some g ∧
        ((vm.procs q).space.nodes p).pages = (s.segs g).frames.length ∧
        ∀ i f, (s.segs g).frames[i]? = some f →
          lookup vm q (((vm.procs q).space.nodes p).base + i * pageSize) = some f := by
  obtain ⟨id, g, mapped, slot, pages, shown⟩ := core.backed q p old
    ((flagged_congr { s with vm := vm } same).mp shared)
  refine ⟨id, g, ?_, slot, same.pages.trans pages, fun i f found => ?_⟩
  · rwa [maps_congr same]
  · rw [same.base, kept]
    · exact shown i f found
    refine ⟨i, ?_, rfl⟩
    rw [pages]
    exact (List.getElem?_eq_some_iff.mp found).1

/-- Attaching a segment to a process that does not hold it. -/
theorem Core.attach (core : Core s ids) (slot : handleTableGet s.table id = some g)
    (absent : ¬ Holds s ids pid id)
    (attached : Attached s.vm vm (ids pid) ids' pid id n vaddr (s.segs g).frames) :
    Core { s with vm := vm } (update ids pid ids') := by
  have live := core.slots id g slot
  -- a page of a private region is not behind the segment
  have notUsed : ∀ {q p page f : Nat}, p ∈ ids q → ¬ s.flagged q p vregShared →
      Covers (s.region q p) page → lookup s.vm q page = some f → f ∉ (s.segs g).frames := by
    intro q p page f member notShared covered mapped inside
    obtain ⟨_, member', shared, covered'⟩ := core.used q page g live f inside mapped
    rw [covers_unique (core.regular q) member member' covered covered'] at notShared
    exact notShared shared
  have newFrame : ∀ {page f : Nat}, (∃ i, i < (s.segs g).frames.length ∧
      page = vaddr + i * pageSize) → lookup vm pid page = some f → f ∈ (s.segs g).frames := by
    rintro _ _ ⟨i, bound, rfl⟩ mapped
    rw [attached.shown i _ (List.getElem?_eq_getElem bound)] at mapped
    cases mapped
    exact getElem_mem bound
  constructor
  case regular =>
    intro q
    by_cases self : q = pid
    · subst self
      rw [update_self]
      exact attached.added.regular
    · rw [update_of_ne self]
      rw [attached.others q self]
      exact core.regular q
  case inside =>
    intro q p member
    rcases attached.region member with ⟨rfl, rfl⟩ | ⟨old, same⟩
    · show ((vm.procs q).space.nodes p).stop ≤ userSpaceLimit
      rw [attached.added.node.stop]
      exact le_trans attached.window (by decide)
    · show ((vm.procs q).space.nodes p).stop ≤ userSpaceLimit
      rw [same.stop]
      exact core.inside q p old
  case table => exact core.table
  case slots => exact core.slots
  case slotOnce => exact core.slotOnce
  case slotted => exact core.slotted
  case distinct => exact core.distinct
  case frames =>
    intro h member
    refine ⟨(core.frames h member).1, fun f inside => ?_⟩
    obtain ⟨notZero, taken⟩ := (core.frames h member).2 f inside
    refine ⟨notZero, ?_⟩
    rw [attached.free]
    exact taken
  case apart => exact core.apart
  case backed =>
    intro q p member shared
    rcases attached.region member with ⟨rfl, rfl⟩ | ⟨old, same⟩
    · refine ⟨id, g, attached.maps.mpr rfl, slot, attached.added.node.pages, fun i f found => ?_⟩
      show lookup vm q (((vm.procs q).space.nodes p).base + i * pageSize) = _
      rw [attached.added.node.base]
      exact attached.shown i f found
    exact core.backed_kept old same (attached.outside old) shared
  case once =>
    intro q id' p member p' member' one two
    rcases attached.region member with ⟨rfl, rfl⟩ | ⟨old, same⟩
    · rcases attached.region member' with ⟨_, rfl⟩ | ⟨old', same'⟩
      · rfl
      have equal := attached.maps.mp one
      subst equal
      refine absurd ⟨p', old', ?_⟩ absent
      rw [← maps_congr same']
      exact two
    · rcases attached.region member' with ⟨rfl, rfl⟩ | ⟨old', same'⟩
      · have equal := attached.maps.mp two
        subst equal
        refine absurd ⟨p, old, ?_⟩ absent
        rw [← maps_congr same]
        exact one
      · refine core.once q id' p old p' old' ?_ ?_
        · rw [← maps_congr same]
          exact one
        · rw [← maps_congr same']
          exact two
  case used =>
    intro q page h member f inside mapped
    by_cases new : q = pid ∧ ∃ i, i < (s.segs g).frames.length ∧ page = vaddr + i * pageSize
    · obtain ⟨rfl, place⟩ := new
      exact ⟨n, attached.new, maps_shared (attached.maps.mpr rfl), attached.covers.mpr place⟩
    have before : lookup s.vm q page = some f := by
      rw [← attached.kept q page new]
      exact mapped
    obtain ⟨p, old, shared, covered⟩ := core.used q page h member f inside before
    obtain ⟨still, same⟩ := attached.old old
    exact ⟨p, still, (flagged_congr { s with vm := vm } same).mpr
      shared, (Covers.congr same).mpr covered⟩
  case unmapped =>
    intro f free q page mapped
    have was : s.vm.free f = true := by
      rw [← attached.free]
      exact free
    by_cases new : q = pid ∧ ∃ i, i < (s.segs g).frames.length ∧ page = vaddr + i * pageSize
    · obtain ⟨rfl, place⟩ := new
      have taken := ((core.frames g live).2 f (newFrame place mapped)).2
      rw [was] at taken
      cases taken
    · refine core.unmapped f was q page ?_
      rw [← attached.kept q page new]
      exact mapped
  case owned =>
    intro q p member notShared notDevice page f covered mapped q' page' mapped'
    rcases attached.region member with ⟨rfl, rfl⟩ | ⟨old, same⟩
    · exact absurd (maps_shared (attached.maps.mpr rfl)) notShared
    rw [flagged_congr { s with vm := vm } same] at notShared notDevice
    have covers := (Covers.congr same).mp covered
    have before : lookup s.vm q page = some f := by
      rw [← attached.outside old covers]
      exact mapped
    by_cases new : q' = pid ∧ ∃ i, i < (s.segs g).frames.length ∧ page' = vaddr + i * pageSize
    · obtain ⟨rfl, place⟩ := new
      exact absurd (newFrame place mapped') (notUsed old notShared covers before)
    · refine core.owned q p old notShared notDevice page f covers before q' page' ?_
      rw [← attached.kept q' page' new]
      exact mapped'
  case log => exact fun f member => core.log f (attached.log f member)

theorem Detached.region (detached : Detached s.vm vm (ids pid) ids' pid r)
    (member : p ∈ update ids pid ids' q) :
    p ∈ ids q ∧ ¬ (q = pid ∧ p = r) ∧ SameRegion (s.region q p) ((vm.procs q).space.nodes p) := by
  by_cases self : q = pid
  · subst self
    rw [update_self] at member
    refine ⟨(detached.removed.members p).mpr (.inr member), ?_, detached.removed.others p member⟩
    rintro ⟨_, rfl⟩
    exact detached.removed.absent member
  · rw [update_of_ne self] at member
    refine ⟨member, fun both => self both.1, ?_⟩
    rw [detached.others q self]
    exact .refl _

theorem Detached.old (detached : Detached s.vm vm (ids pid) ids' pid r) (member : p ∈ ids q)
    (other : ¬ (q = pid ∧ p = r)) : p ∈ update ids pid ids' q := by
  by_cases self : q = pid
  · subst self
    rw [update_self]
    refine ((detached.removed.members p).mp member).resolve_left fun same => ?_
    exact other ⟨rfl, same⟩
  · rw [update_of_ne self]
    exact member

/-- Detaching a region, where frames are freed only when nothing uses them any
more, and a shared region leaves no page. -/
theorem Core.detach (core : Core s ids) (detached : Detached s.vm vm (ids pid) ids' pid r)
    (gone : s.flagged pid r vregShared → ∀ page,
      Covers (s.region pid r) page → lookup vm pid page = none)
    (freed : ∀ f, vm.free f = true → s.vm.free f = true ∨
      ¬ Uses s f ∧ ∀ q page, lookup vm q page ≠ some f) :
    Core { s with vm := vm } (update ids pid ids') := by
  have outside : ∀ {q p page : Nat}, p ∈ ids q → ¬ (q = pid ∧ p = r) →
      Covers (s.region q p) page → lookup vm q page = lookup s.vm q page := by
    intro q p page member other covered
    refine detached.kept q page ?_
    rintro ⟨rfl, here⟩
    exact other ⟨rfl, covers_unique (core.regular q) member detached.removed.present covered here⟩
  constructor
  case regular =>
    intro q
    by_cases self : q = pid
    · subst self
      rw [update_self]
      exact detached.removed.regular
    · rw [update_of_ne self]
      rw [detached.others q self]
      exact core.regular q
  case inside =>
    intro q p member
    obtain ⟨old, _, same⟩ := detached.region member
    show ((vm.procs q).space.nodes p).stop ≤ userSpaceLimit
    rw [same.stop]
    exact core.inside q p old
  case table => exact core.table
  case slots => exact core.slots
  case slotOnce => exact core.slotOnce
  case slotted => exact core.slotted
  case distinct => exact core.distinct
  case frames =>
    intro g member
    refine ⟨(core.frames g member).1, fun f inside => ?_⟩
    obtain ⟨notZero, taken⟩ := (core.frames g member).2 f inside
    refine ⟨notZero, Bool.eq_false_iff.mpr fun free => ?_⟩
    rcases freed f free with old | ⟨unused, _⟩
    · rw [taken] at old
      cases old
    · exact unused ⟨g, member, inside⟩
  case apart => exact core.apart
  case backed =>
    intro q p member shared
    obtain ⟨old, other, same⟩ := detached.region member
    exact core.backed_kept old same (outside old other) shared
  case once =>
    intro q id' p member p' member' one two
    obtain ⟨old, _, same⟩ := detached.region member
    obtain ⟨old', _, same'⟩ := detached.region member'
    refine core.once q id' p old p' old' ?_ ?_
    · rw [← maps_congr same]
      exact one
    · rw [← maps_congr same']
      exact two
  case used =>
    intro q page g member f inside mapped
    obtain ⟨p, old, shared, covered⟩ := core.used q page g member f inside
      (detached.fewer q page f mapped)
    have other : ¬ (q = pid ∧ p = r) := by
      rintro ⟨rfl, rfl⟩
      rw [show lookup _ q page = none from gone shared page covered] at mapped
      cases mapped
    have still := detached.old old other
    obtain ⟨_, _, same⟩ := detached.region still
    exact ⟨p, still, (flagged_congr { s with vm := vm } same).mpr
      shared, (Covers.congr same).mpr covered⟩
  case unmapped =>
    intro f free q page mapped
    rcases freed f free with old | ⟨_, nowhere⟩
    · exact core.unmapped f old q page (detached.fewer q page f mapped)
    · exact nowhere q page mapped
  case owned =>
    intro q p member notShared notDevice page f covered mapped q' page' mapped'
    obtain ⟨old, _, same⟩ := detached.region member
    rw [flagged_congr { s with vm := vm } same] at notShared notDevice
    exact core.owned q p old notShared notDevice page f ((Covers.congr same).mp covered)
      (detached.fewer q page f mapped) q' page' (detached.fewer q' page' f mapped')
  case log => exact fun f member => core.log f (detached.log f member)

theorem space_same {s' : State} (procs : s'.vm.procs = s.vm.procs)
    (kernel : s'.vm.kernel = s.vm.kernel) :
    (∀ q page, lookup s'.vm q page = lookup s.vm q page) ∧ (∀ q p, s'.region q p = s.region q p) ∧
      ∀ q p flag, s'.flagged q p flag ↔ s.flagged q p flag := by
  refine ⟨fun q page => ?_, fun q p => ?_, fun q p flag => ?_⟩
  · rw [UserMem.lookup, UserMem.lookup, procs, kernel]
  · rw [State.region, State.region, procs]
  · rw [State.flagged, State.flagged, State.region, State.region, procs]

/-- The invariant reads processes, frees, ids and frames, but not the counts or
the inside of the table. -/
theorem Core.congr (core : Core s ids) {s' : State} (procs : s'.vm.procs = s.vm.procs)
    (kernel : s'.vm.kernel = s.vm.kernel) (free : ∀ f, s'.vm.free f = true ↔ s.vm.free f = true)
    (log : ∀ f, .freed f true ∈ s'.vm.log → .freed f true ∈ s.vm.log)
    (table : ∃ frees, HandleTable.Inv s'.table frees)
    (gets : ∀ id, handleTableGet s'.table id = handleTableGet s.table id) (live : s'.live = s.live)
    (frames : ∀ g ∈ s.live, (s'.segs g).frames = (s.segs g).frames) : Core s' ids := by
  obtain ⟨look, region, flag⟩ := space_same procs kernel
  constructor
  case regular =>
    rw [procs]
    exact core.regular
  case inside =>
    simp only [region]
    exact core.inside
  case table => exact table
  case slots =>
    simp only [gets, live]
    exact core.slots
  case slotOnce =>
    simp only [gets]
    exact core.slotOnce
  case slotted =>
    simp only [gets, live]
    exact core.slotted
  case distinct =>
    rw [live]
    exact core.distinct
  case frames =>
    intro g member
    rw [live] at member
    rw [frames g member]
    refine ⟨(core.frames g member).1, fun f inside => ?_⟩
    obtain ⟨notZero, taken⟩ := (core.frames g member).2 f inside
    refine ⟨notZero, Bool.eq_false_iff.mpr fun isFree => ?_⟩
    rw [(free f).mp isFree] at taken
    cases taken
  case apart =>
    intro g member
    rw [live] at member ⊢
    rw [frames g member]
    refine ⟨(core.apart g member).1, fun h member' f one two => ?_⟩
    rw [frames h member'] at two
    exact (core.apart g member).2 h member' f one two
  case backed =>
    intro q p member shared
    obtain ⟨id, g, mapped, slot, pages, shown⟩ := core.backed q p member ((flag q p _).mp shared)
    have same := frames g (core.slots id g slot)
    refine ⟨id, g, ?_, ?_, ?_, ?_⟩
    · rw [region]
      exact mapped
    · rw [gets]
      exact slot
    · rw [region, same]
      exact pages
    · intro i f found
      rw [look, region]
      rw [same] at found
      exact shown i f found
  case once =>
    simp only [region]
    exact core.once
  case used =>
    intro q page g member f inside mapped
    rw [live] at member
    rw [frames g member] at inside
    rw [look] at mapped
    simp only [flag, region]
    exact core.used q page g member f inside mapped
  case unmapped =>
    intro f isFree q page
    rw [look]
    exact core.unmapped f ((free f).mp isFree) q page
  case owned =>
    simp only [flag, region, look]
    exact core.owned
  case log => exact fun f member => core.log f (log f member)

/-- A segment of frames that were free, under an id that had none. -/
theorem Core.build (core : Core s ids) {s' : State} {new : List Nat} (fresh : g ∉ s.live)
    (distinct : new.Nodup) (few : new.length ≤ shmMaxPages) (were : ∀ f ∈ new, s.vm.free f = true ∧
    f ≠ 0) (procs : s'.vm.procs = s.vm.procs) (kernel : s'.vm.kernel = s.vm.kernel)
    (free : ∀ f, s'.vm.free f = true ↔ s.vm.free f = true ∧ f ∉ new) (log : s'.vm.log = s.vm.log)
    (table : ∃ frees, HandleTable.Inv s'.table frees) (unused : handleTableGet s.table id = none)
    (gets : ∀ id', handleTableGet s'.table id' =
      if id' = id then some g else handleTableGet s.table id') (live : s'.live = g :: s.live)
    (own : (s'.segs g).frames = new) (others : ∀ h ∈ s.live, (s'.segs h).frames = (s.segs h).frames)
    : Core s' ids := by
  obtain ⟨look, region, flag⟩ := space_same procs kernel
  have slot : ∀ id' h, handleTableGet s'.table id' = some h → (id' = id ∧ h = g) ∨
        (id' ≠ id ∧ handleTableGet s.table id' = some h) := by
    intro id' h found
    rw [gets] at found
    split at found
    · next same => exact .inl ⟨same, (Option.some.inj found).symm⟩
    · next other => exact .inr ⟨other, found⟩
  have keeps : ∀ id' h, handleTableGet s.table id' = some h →
      handleTableGet s'.table id' = some h := by
    intro id' h found
    rw [gets, if_neg]
    · exact found
    rintro rfl
    rw [unused] at found
    cases found
  -- the frames of a segment that was there are not the new ones
  have older : ∀ h ∈ s.live, ∀ f ∈ (s.segs h).frames, f ∉ new := by
    intro h member f inside isNew
    have taken := ((core.frames h member).2 f inside).2
    rw [(were f isNew).1] at taken
    cases taken
  constructor
  case regular =>
    rw [procs]
    exact core.regular
  case inside =>
    simp only [region]
    exact core.inside
  case table => exact table
  case slots =>
    intro id' h found
    rw [live]
    rcases slot id' h found with ⟨_, rfl⟩ | ⟨_, old⟩
    · exact mem_cons_self
    · exact mem_cons_of_mem _ (core.slots id' h old)
  case slotOnce =>
    intro id' id'' h one two
    rcases slot id' h one with ⟨rfl, rfl⟩ | ⟨_, old⟩
    · rcases slot id'' h two with ⟨rfl, _⟩ | ⟨_, old⟩
      · rfl
      · exact absurd (core.slots _ _ old) fresh
    · rcases slot id'' h two with ⟨_, rfl⟩ | ⟨_, old'⟩
      · exact absurd (core.slots _ _ old) fresh
      · exact core.slotOnce id' id'' h old old'
  case slotted =>
    intro h member
    rw [live] at member
    rcases mem_cons.mp member with rfl | old
    · exact ⟨id, by rw [gets, if_pos rfl]⟩
    · obtain ⟨id', found⟩ := core.slotted h old
      exact ⟨id', keeps id' h found⟩
  case distinct =>
    rw [live]
    exact nodup_cons.mpr ⟨fresh, core.distinct⟩
  case frames =>
    intro h member
    rw [live] at member
    have taken : ∀ f, s.vm.free f = false ∨ f ∈ new → s'.vm.free f = false := by
      intro f why
      refine Bool.eq_false_iff.mpr fun isFree => ?_
      obtain ⟨was, notNew⟩ := (free f).mp isFree
      rcases why with no | isNew
      · rw [was] at no
        cases no
      · exact notNew isNew
    rcases mem_cons.mp member with rfl | old
    · rw [own]
      exact ⟨few, fun f isNew => ⟨(were f isNew).2, taken f (.inr isNew)⟩⟩
    · rw [others h old]
      refine ⟨(core.frames h old).1, fun f inside => ?_⟩
      obtain ⟨notZero, was⟩ := (core.frames h old).2 f inside
      exact ⟨notZero, taken f (.inl was)⟩
  case apart =>
    intro h member
    rw [live] at member ⊢
    rcases mem_cons.mp member with rfl | old
    · rw [own]
      refine ⟨distinct, fun k member' f isNew inside => ?_⟩
      rcases mem_cons.mp member' with rfl | old'
      · rfl
      · rw [others k old'] at inside
        exact absurd isNew (older k old' f inside)
    · rw [others h old]
      refine ⟨(core.apart h old).1, fun k member' f inside inside' => ?_⟩
      rcases mem_cons.mp member' with rfl | old'
      · rw [own] at inside'
        exact absurd inside' (older h old f inside)
      · rw [others k old'] at inside'
        exact (core.apart h old).2 k old' f inside inside'
  case backed =>
    intro q p member shared
    obtain ⟨id', h, mapped, found, pages, shown⟩ := core.backed q p member ((flag q p _).mp shared)
    have same := others h (core.slots id' h found)
    refine ⟨id', h, ?_, keeps id' h found, ?_, ?_⟩
    · rw [region]
      exact mapped
    · rw [region, same]
      exact pages
    · intro i f inside
      rw [look, region]
      rw [same] at inside
      exact shown i f inside
  case once =>
    simp only [region]
    exact core.once
  case used =>
    intro q page h member f inside mapped
    rw [live] at member
    rw [look] at mapped
    rcases mem_cons.mp member with rfl | old
    · rw [own] at inside
      exact absurd mapped (core.unmapped f (were f inside).1 q page)
    · rw [others h old] at inside
      simp only [flag, region]
      exact core.used q page h old f inside mapped
  case unmapped =>
    intro f isFree q page
    rw [look]
    exact core.unmapped f ((free f).mp isFree).1 q page
  case owned =>
    simp only [flag, region, look]
    exact core.owned
  case log =>
    rw [log]
    exact core.log

end Edits

section Table

variable {t : Table Nat} {frees : List Nat} {id g : Nat}

theorem insert_get (inv : HandleTable.Inv t frees) (g : Nat) : (handleTableInsert t g).1 = t ∧
    (handleTableInsert t g).2.id = 0 ∨ ∃ id, (handleTableInsert t g).2.id = id ∧
    id ≠ 0 ∧ handleTableGet t id = none ∧ (∃ rest, HandleTable.Inv (handleTableInsert t g).1 rest) ∧
      ∀ id', handleTableGet (handleTableInsert t g).1 id' =
        if id' = id then some g else handleTableGet t id' := by
  cases frees with
  | nil =>
    rw [inv.refuse]
    exact .inl ⟨rfl, rfl⟩
  | cons =>
    obtain ⟨id, rest', t', result, taken, inv', capacity, slots, _⟩ := inv.insert (by simp) g
    have free : inRange t id ∧ t.slots id = none := (inv.free id).mp taken.member
    have range : ∀ id', inRange t' id' ↔ inRange t id' := by
      intro id'
      rw [inRange, inRange, capacity]
    rw [result]
    refine .inr ⟨id, rfl, ne_of_gt free.1.1, ?_, ⟨rest', inv'⟩, ?_⟩
    · rw [handleTableGet, if_pos free.1, free.2]
    intro id'
    unfold handleTableGet
    simp only [range, slots]
    by_cases same : id' = id
    · subst same
      simp [free.1]
    · simp [same]

theorem remove_get (inv : HandleTable.Inv t frees) (found : handleTableGet t id = some g) :
    (∃ rest, HandleTable.Inv (handleTableRemove t id).1 rest) ∧ ∀ id', handleTableGet
      (handleTableRemove t id).1 id' = if id' = id then none else handleTableGet t id' := by
  have both : inRange t id ∧ t.slots id = some g := by
    unfold handleTableGet at found
    split at found
    · next range => exact ⟨range, found⟩
    · cases found
  obtain ⟨t', result, inv', capacity, slots, _⟩ := inv.remove both.1 both.2
  have range : ∀ id', inRange t' id' ↔ inRange t id' := by
    intro id'
    rw [inRange, inRange, capacity]
  rw [result]
  refine ⟨⟨_, inv'⟩, fun id' => ?_⟩
  unfold handleTableGet
  simp only [range, slots]
  by_cases same : id' = id
  · subst same
    simp
  · simp [same]

end Table

end MainDob.Kernel.Shm
