/-
Purpose: When sys_munmap unmaps exactly the region it names and returns only
  frames that nothing else uses: a condition on the count it is given and on the
  kind of the region, over address spaces whose regions own their frames, share
  them with a segment, or map a device.
Main exports: Covers, Uses, munmap_frame
-/
import MainDob.Kernel.Shm
import MainDob.Proofs.RegionList
import MainDob.Proofs.UserCalls

namespace MainDob.Kernel.Shm

open Lib
open Regions
open UserMem
open List Option

/-- The page belongs to the region. -/
def Covers (r : Vregion) (page : Nat) : Prop :=
  ∃ i, i < r.pages ∧ page = r.base + i * pageSize

/-- A segment of shared memory uses the frame. -/
def Uses (s : State) (frame : Nat) : Prop :=
  ∃ g ∈ s.live, frame ∈ (s.segs g).frames

/-- A region of a process. -/
def State.region (s : State) (pid p : Nat) : Vregion :=
  (s.vm.procs pid).space.nodes p

/-- The region has the flag. -/
def State.flagged (s : State) (pid p flag : Nat) : Prop :=
  (s.region pid p).has flag = true

instance (s : State) (pid p flag : Nat) : Decidable (s.flagged pid p flag) :=
  inferInstanceAs (Decidable (_ = true))

/-- The address spaces of the processes: disjoint regions of whole pages in the
user half.  Behind the pages of a private region are frames that nothing else
uses, behind those of a shared one frames of a segment. -/
structure AddressSpaces (s : State) (ids : Nat → List Nat) : Prop where
  tracks : ∀ q, Tracks (s.vm.procs q).space (ids q)
  apart : ∀ q, ((s.vm.procs q).space.regionsAt (ids q)).Pairwise fun r r' => r.stop ≤ r'.base
  inside : ∀ q, ∀ p ∈ ids q, (s.region q p).stop ≤ userSpaceLimit
  owned : ∀ q, ∀ p ∈ ids q, ¬ s.flagged q p vregShared → ¬ s.flagged q p vregDevice →
    ∀ page f, Covers (s.region q p) page → lookup s.vm q page = some f →
      ¬ Uses s f ∧ ∀ q' page', lookup s.vm q' page' = some f → q' = q ∧ page' = page
  shared : ∀ q, ∀ p ∈ ids q, s.flagged q p vregShared →
    (∃ page f, Covers (s.region q p) page ∧ lookup s.vm q page = some f) ∧ ∀ page f, Covers
      (s.region q p) page → lookup s.vm q page = some f → Uses s f ∧ f ≠ 0 ∧ s.vm.free f = false

/-- `v'` differs from the state by the unmapping of the region `r`, and frees
only frames without another use. -/
structure Framed (s : State) (ids : List Nat) (pid r : Nat) (v' : Vm) :
    Prop where
  gone : ∀ page, Covers (s.region pid r) page → lookup v' pid page = none
  kept : ∀ q page, ¬ (q = pid ∧ Covers (s.region pid r) page) →
    lookup v' q page = lookup s.vm q page
  others : ∀ p ∈ ids, p ≠ r → ∀ page, Covers (s.region pid p) page →
    lookup v' pid page = lookup s.vm pid page
  freed : ∀ f, v'.free f = true → s.vm.free f = true ∨
    ¬ Uses s f ∧ ∀ q page, lookup s.vm q page = some f → q = pid ∧ Covers (s.region pid r) page

/-- The count given with the region `r` reaches all its mapped pages and no
other mapped page, and the region is not shared memory. -/
structure CountFits (s : State) (pid r pages : Nat) : Prop where
  reaches : ∀ i, pages ≤ i → i < (s.region pid r).pages →
    lookup s.vm pid ((s.region pid r).base + i * pageSize) = none
  stays : ∀ i, i < pages → ¬ Covers (s.region pid r) (pageAt (s.region pid r).base i) →
    lookup s.vm pid (pageAt (s.region pid r).base i) = none
  unshared : s.flagged pid r vregShared → s.flagged pid r vregDevice

section Search

variable {nodes : Nat → Vregion}

theorem findExactWalk_sound {base fuel r : Nat} {back : List Nat} (links : Seg
    (fun p => (nodes p).next) back none) (found : findExactWalk nodes base fuel back.head? = some
    (some r)) : r ∈ back ∧ (nodes r).base = base := by
  induction back generalizing fuel with
  | nil =>
    cases fuel with
    | zero | succ => cases found
  | cons cur _ ih =>
    cases fuel with
    | zero => cases found
    | succ =>
      rw [List.head?_cons, findExactWalk] at found
      split at found
      · next here =>
          cases found
          exact ⟨mem_cons_self, here⟩
      · split at found
        · cases found
        rw [seg_head links] at found
        obtain ⟨member, same⟩ := ih links.2 found
        exact ⟨mem_cons_of_mem cur member, same⟩

end Search

section Munmap

variable {s : State} {ids : Nat → List Nat} {v' : Vm} {pid virt pages r : Nat}

section

variable (spaces : AddressSpaces s ids)
include spaces

theorem AddressSpaces.found (search : vregionFindExact (s.vm.procs pid).space virt = some (some r))
    : r ∈ ids pid ∧ (s.region pid r).base = virt := by
  rw [vregionFindExact, (spaces.tracks pid).links.head] at search
  exact findExactWalk_sound (spaces.tracks pid).links.forward search

theorem AddressSpaces.pageAt {p i : Nat}
    (member : p ∈ ids pid) (bound : i < (s.region pid p).pages) :
    UserMem.pageAt (s.region pid p).base i = (s.region pid p).base + i * pageSize ∧
      (s.region pid p).base + i * pageSize < userSpaceLimit := by
  have inside := spaces.inside pid p member
  simp only [Vregion.stop, UserMem.pageAt, add32, mul32, wordSize, pageSize, userSpaceLimit] at *
  omega

theorem AddressSpaces.disjoint {p q page : Nat} (pIn : p ∈ ids pid) (qIn : q ∈ ids pid)
    (pHas : Covers (s.region pid p) page) (qHas : Covers (s.region pid q) page) : p = q := by
  have sorted := pairwise_map.mp (spaces.apart pid)
  by_contra different
  have either := List.Pairwise.forall_of_forall_of_flip (l := ids pid) (R := fun a b => a ≠ b →
      (s.region pid a).stop ≤ (s.region pid b).base ∨ (s.region pid b).stop ≤ (s.region pid a).base)
    (by intro a _ no; exact absurd rfl no)
    (sorted.imp fun le _ => .inl le) (sorted.imp fun le _ => .inr le) pIn qIn different
  obtain ⟨i, iBound, rfl⟩ := pHas
  obtain ⟨j, jBound, same⟩ := qHas
  simp only [Vregion.stop, pageSize] at *
  omega

end

variable {x : Vm} {freePhys : Bool}

/-- The pages the call names. -/
def Named (virt pages page : Nat) : Prop :=
  ∃ i, i < pages ∧ page = UserMem.pageAt virt i

theorem unmaps_outside {v : Vm} {region : Vregion} (unmaps : Unmaps v x pid
    (Named region.base pages) freePhys) (low : ∀ page, Covers region page → page < userSpaceLimit)
    (stays : ∀ i, i < pages → ¬ Covers region (UserMem.pageAt region.base i) →
      lookup v pid (UserMem.pageAt region.base i) = none) {q page : Nat}
    (outside : ¬ (q = pid ∧ Covers region page)) : lookup x q page = lookup v q page := by
  by_cases touched : Named region.base pages page ∧ Sees pid q page
  · have high : q ≠ pid → userSpaceLimit ≤ page := fun other => touched.2.resolve_left other
    have notCovered : ¬ Covers region page := by
      intro covered
      have other : q ≠ pid := fun same => outside ⟨same, covered⟩
      exact absurd (low page covered) (Nat.not_lt.mpr (high other))
    have none' : lookup v pid page = none := by
      obtain ⟨i, bound, rfl⟩ := touched.1
      exact stays i bound notCovered
    have same : lookup v q page = lookup v pid page := by
      by_cases self : q = pid
      · rw [self]
      · rw [UserMem.lookup, UserMem.lookup, if_neg (Nat.not_lt.mpr (high self)),
          if_neg (Nat.not_lt.mpr (high self))]
    rw [unmaps.gone q page touched.1 touched.2, same, none']
  · exact unmaps.kept q page touched

theorem CountFits.framed (fits : CountFits s pid r pages) (spaces : AddressSpaces s ids)
    (member : r ∈ ids pid) (unmaps : Unmaps s.vm x pid (Named (s.region pid r).base pages)
      (!(s.region pid r).has vregDevice)) : Framed s (ids pid) pid r x := by
  have named : ∀ page f, Named (s.region pid r).base pages page →
      lookup s.vm pid page = some f → Covers (s.region pid r) page := by
    rintro _ _ ⟨i, bound, rfl⟩ mapped
    by_contra outside
    rw [fits.stays i bound outside] at mapped
    cases mapped
  have kept : ∀ q page, ¬ (q = pid ∧ Covers (s.region pid r) page) →
      lookup x q page = lookup s.vm q page := by
    refine fun q page => unmaps_outside unmaps ?_ fits.stays
    rintro _ ⟨_, bound, rfl⟩
    exact (spaces.pageAt member bound).2
  constructor
  case gone =>
    rintro _ ⟨i, bound, rfl⟩
    by_cases reached : i < pages
    · refine unmaps.gone pid _ ⟨i, reached, ?_⟩ sees_self
      exact (spaces.pageAt member bound).1.symm
    have unmapped := fits.reaches i (Nat.le_of_not_lt reached) bound
    cases after : lookup x pid ((s.region pid r).base + i * pageSize) with
    | none => rfl
    | some =>
      rw [(unmaps.lookup_some after).2] at unmapped
      cases unmapped
  case kept => exact kept
  case others =>
    intro p pIn other page covered
    refine kept pid page fun both => other ?_
    exact spaces.disjoint pIn member covered both.2
  case freed =>
    intro f free
    rcases (unmaps.freed f).mp free with old | ⟨frees, _, page, inRange, mapped⟩
    · exact .inl old
    right
    have covered := named page f inRange mapped
    have notDevice : ¬ s.flagged pid r vregDevice := by simpa [State.flagged] using frees
    have notShared : ¬ s.flagged pid r vregShared := fun shared => notDevice (fits.unshared shared)
    obtain ⟨unused, only⟩ := spaces.owned pid r member notShared notDevice page f covered mapped
    refine ⟨unused, fun q page' mapped' => ?_⟩
    obtain ⟨rfl, rfl⟩ := only q page' mapped'
    exact ⟨rfl, covered⟩

theorem Framed.countFits (framed : Framed s (ids pid) pid r x) (spaces : AddressSpaces s ids)
    (member : r ∈ ids pid) (unmaps : Unmaps s.vm x pid (Named (s.region pid r).base pages)
      (!(s.region pid r).has vregDevice)) : CountFits s pid r pages := by
  have reaches : ∀ i, pages ≤ i → i < (s.region pid r).pages →
      lookup s.vm pid ((s.region pid r).base + i * pageSize) = none := by
    intro i past bound
    have gone := framed.gone _ ⟨i, bound, rfl⟩
    rw [unmaps.kept] at gone
    · exact gone
    rintro ⟨⟨j, reached, same⟩, _⟩
    rw [(spaces.pageAt member (by omega : j < _)).1] at same
    simp only [pageSize] at same
    omega
  constructor
  case reaches => exact reaches
  case stays =>
    intro i reached outside
    have kept := framed.kept pid _ fun both => outside both.2
    rw [unmaps.gone pid _ ⟨i, reached, rfl⟩ sees_self] at kept
    exact kept.symm
  case unshared =>
    intro shared
    by_contra notDevice
    obtain ⟨⟨page, f, covered, mapped⟩, uses⟩ := spaces.shared pid r member shared
    obtain ⟨used, notZero, taken⟩ := uses page f covered mapped
    have freed : x.free f = true := by
      refine (unmaps.freed f).mpr (.inr ⟨?_, notZero, page, ?_, mapped⟩)
      · simpa [State.flagged] using notDevice
      obtain ⟨i, bound, rfl⟩ := covered
      refine ⟨i, ?_, (spaces.pageAt member bound).1.symm⟩
      by_contra past
      rw [reaches i (Nat.le_of_not_lt past) bound] at mapped
      cases mapped
    rcases framed.freed f freed with old | ⟨unused, _⟩
    · rw [taken] at old
      cases old
    · exact unused used

theorem Framed.setSpace {space : Space} {list : List Nat} :
    Framed s list pid r (x.setSpace pid space) ↔ Framed s list pid r x := by
  have same : lookup (x.setSpace pid space) = lookup x :=
    funext fun q => funext fun page => setSpace_lookup
  constructor
  · intro framed
    obtain ⟨gone, kept, others, freed⟩ := framed
    rw [same] at gone kept others
    exact ⟨gone, kept, others, freed⟩
  · intro framed
    obtain ⟨gone, kept, others, freed⟩ := framed
    rw [← same] at gone kept others
    exact ⟨gone, kept, others, freed⟩

theorem framed_iff (spaces : AddressSpaces s ids) (search : vregionFindExact
    (s.vm.procs pid).space virt = some (some r)) (path : MunmapPath s.vm v' pid virt pages r) :
    Framed s (ids pid) pid r v' ↔ CountFits s pid r pages := by
  obtain ⟨_, _, _, rfl⟩ := path
  obtain ⟨member, base⟩ := spaces.found search
  have unmaps := unmapUserRange_spec s.vm pid virt pages (!(s.region pid r).has vregDevice)
  rw [← base] at unmaps ⊢
  exact Framed.setSpace.trans ⟨fun framed => framed.countFits spaces member unmaps,
      fun fits => fits.framed spaces member unmaps⟩

/-- A successful munmap unmaps exactly the region that starts at the address,
and frees only frames nothing else uses, if and only if the count reaches all
mapped pages of the region and no other, and the region is not shared memory. -/
theorem munmap_frame (spaces : AddressSpaces s ids)
    (result : sysMunmap s.vm pid virt pages = some (v', true)) : ∃ r ∈ ids pid,
    (s.region pid r).base = virt ∧ vregionFindExact (s.vm.procs pid).space virt = some (some r) ∧
      (Framed s (ids pid) pid r v' ↔ CountFits s pid r pages) := by
  rcases sysMunmap_cases result with ⟨impossible, _⟩ | ⟨_, _, _, r, search, _, path⟩
  · cases impossible
  · obtain ⟨member, base⟩ := spaces.found search
    exact ⟨r, member, base, search, framed_iff spaces search path⟩

end Munmap

/-! ### Two neighbours and a segment -/

/-- A page table with a few entries. -/
def tableOf (entries : List (Nat × Nat)) (page : Nat) : Option Nat :=
  (entries.find? fun e => e.1 == page).map Prod.snd

/-- Two pages and one page side by side, and a mapping of the segment 1. -/
def firstSpace : Space where
  nodes := fun
    | 1 => ⟨0x40000000, 2, 4107, -1, 2, some 2, none⟩
    | 2 => ⟨0x40002000, 1, 4107, -1, 1, some 3, some 1⟩
    | 3 => ⟨0x60000000, 1, 8203, 1, 1, none, some 2⟩
    | _ => default
  live := [1, 2, 3]
  vl := ⟨some 1, some 3, 3, 4, 0⟩

/-- Another mapping of the segment 1. -/
def secondSpace : Space where
  nodes := fun
    | 1 => ⟨0x60000000, 1, 8203, 1, 1, none, none⟩
    | _ => default
  live := [1]
  vl := ⟨some 1, some 1, 1, 1, 0⟩

/-- The processes 1 and 2 share a segment; the others have nothing. -/
def neighbours : State where
  vm :=
    { procs := fun
        | 1 => ⟨firstSpace, tableOf [(0x40000000, 0x200000),
            (0x40001000, 0x201000), (0x40002000, 0x202000),
            (0x60000000, 0x203000)], 0, 0, none⟩
        | 2 => ⟨secondSpace, tableOf [(0x60000000, 0x203000)], 0, 0, none⟩
        | _ => ⟨Regions.initial, fun _ => none, 0, 0, none⟩
      kernel := tableOf [(userSpaceLimit, 0x100000)]
      free := fun _ => false
      log := [] }
  table := (HandleTable.handleTableInsert
    (HandleTable.handleTableInit Nat shmMax .lifo) 7).1
  segs := fun _ => ⟨[0x203000], 3, 1⟩
  live := [7]

/-- The regions of the processes. -/
def neighbourIds : Nat → List Nat
  | 1 => [1, 2, 3]
  | 2 => [1]
  | _ => []

theorem tableOf_some {entries : List (Nat × Nat)} {page f : Nat}
    (found : tableOf entries page = some f) : (page, f) ∈ entries := by
  obtain ⟨e, first, rfl⟩ := map_eq_some_iff.mp found
  have same : e.1 = page := by simpa using List.find?_some first
  rw [← same]
  exact mem_of_find?_eq_some first

theorem neighbours_mapped {q page f : Nat} (mapped : lookup neighbours.vm q page = some f) :
    (q = 1 ∧ (page = 0x40000000 ∧ f = 0x200000 ∨
        page = 0x40001000 ∧ f = 0x201000 ∨ page = 0x40002000 ∧ f = 0x202000 ∨
        page = 0x60000000 ∧ f = 0x203000)) ∨
      (q = 2 ∧ page = 0x60000000 ∧ f = 0x203000) ∨ (page = userSpaceLimit ∧ f = 0x100000) := by
  unfold UserMem.lookup at mapped
  split at mapped
  · match q with
    | 1 =>
      have entry := tableOf_some mapped
      simp only [mem_cons, Prod.mk.injEq, not_mem_nil, or_false] at entry
      exact .inl ⟨rfl, entry⟩
    | 2 =>
      have entry := tableOf_some mapped
      simp only [mem_cons, Prod.mk.injEq, not_mem_nil, or_false] at entry
      exact .inr (.inl ⟨rfl, entry⟩)
    | 0 => cases mapped
    | n + 3 => cases mapped
  · have entry := tableOf_some mapped
    simp only [mem_cons, Prod.mk.injEq, not_mem_nil, or_false] at entry
    exact .inr (.inr entry)

theorem neighbours_ids {q p : Nat} (member : p ∈ neighbourIds q) :
    (q = 1 ∧ (p = 1 ∨ p = 2 ∨ p = 3)) ∨ (q = 2 ∧ p = 1) := by
  match q with
  | 1 =>
    simp only [neighbourIds, mem_cons, not_mem_nil, or_false] at member
    exact .inl ⟨rfl, member⟩
  | 2 => exact .inr ⟨rfl, by simpa [neighbourIds] using member⟩
  | 0 => cases member
  | n + 3 => cases member

theorem neighbours_uses {f : Nat} : Uses neighbours f ↔ f = 0x203000 := by simp [Uses, neighbours]

theorem neighbours_spaces : AddressSpaces neighbours neighbourIds := by
  constructor
  case tracks =>
    intro q
    match q with
    | 1 =>
      refine ⟨⟨?_, ?_, rfl, rfl⟩, by decide, by decide, by decide⟩
      · exact ⟨rfl, rfl, rfl, trivial⟩
      · exact ⟨rfl, rfl, rfl, trivial⟩
    | 2 => exact ⟨⟨⟨rfl, trivial⟩, ⟨rfl, trivial⟩, rfl, rfl⟩, by decide,
        by decide, by decide⟩
    | 0 => exact ⟨.nil, nodup_nil, by simp [neighbourIds], nodup_nil⟩
    | n + 3 => exact ⟨.nil, nodup_nil, by simp [neighbourIds], nodup_nil⟩
  case apart =>
    intro q
    match q with
    | 1 => decide
    | 2 => decide
    | 0 => exact List.Pairwise.nil
    | n + 3 => exact List.Pairwise.nil
  case inside =>
    intro q p member
    rcases neighbours_ids member with ⟨rfl, rfl | rfl | rfl⟩ | ⟨rfl, rfl⟩ <;>
    decide
  case owned =>
    intro q p member notShared _ page f covered mapped
    have here := neighbours_mapped mapped
    obtain ⟨i, bound, place⟩ := covered
    -- only the first two regions are private
    have private' : q = 1 ∧ (p = 1 ∨ p = 2) := by
      rcases neighbours_ids member with ⟨rfl, rfl | rfl | rfl⟩ | ⟨rfl, rfl⟩
      · exact ⟨rfl, .inl rfl⟩
      · exact ⟨rfl, .inr rfl⟩
      · exact absurd (by decide) notShared
      · exact absurd (by decide) notShared
    have low : page < 0x60000000 := by
      obtain ⟨rfl, rfl | rfl⟩ := private'
      · have few : i < 2 := bound
        have start : page = 0x40000000 + i * 4096 := place
        omega
      · have few : i < 1 := bound
        have start : page = 0x40002000 + i * 4096 := place
        omega
    constructor
    · rw [neighbours_uses]
      omega
    · intro q' page' mapped'
      have there := neighbours_mapped mapped'
      simp only [userSpaceLimit] at here there
      omega
  case shared =>
    intro q p member shared
    have region : (q = 1 ∨ q = 2) ∧ (neighbours.region q p).base = 0x60000000 ∧
        (neighbours.region q p).pages = 1 := by
      rcases neighbours_ids member with ⟨rfl, rfl | rfl | rfl⟩ | ⟨rfl, rfl⟩
      · exact absurd shared (by decide)
      · exact absurd shared (by decide)
      · exact ⟨.inl rfl, rfl, rfl⟩
      · exact ⟨.inr rfl, rfl, rfl⟩
    obtain ⟨process, base, pages⟩ := region
    constructor
    · refine ⟨0x60000000, 0x203000, ⟨0, by omega, by omega⟩, ?_⟩
      rcases process with rfl | rfl <;> decide
    rintro page f ⟨i, bound, place⟩ mapped
    have here := neighbours_mapped mapped
    have only : f = 0x203000 := by
      obtain rfl : i = 0 := by omega
      simp only [userSpaceLimit] at here
      omega
    subst only
    exact ⟨neighbours_uses.mpr rfl, by decide, rfl⟩

/-- The first region, with its own count. -/
theorem munmap_frame_neighbour : ∃ v', sysMunmap neighbours.vm 1 0x40000000 2 = some (v', true) ∧
      v'.log = [.freed 0x201000 false, .freed 0x200000 false,
        .unmapped 1 0x40001000 (some 0x201000),
        .unmapped 1 0x40000000 (some 0x200000)] ∧ Framed neighbours [1, 2, 3] 1 1 v' := by
  have executed : (sysMunmap neighbours.vm 1 0x40000000 2).map (fun out => (out.1.log, out.2)) =
      some ([.freed 0x201000 false, .freed 0x200000 false, .unmapped 1 0x40001000 (some 0x201000),
        .unmapped 1 0x40000000 (some 0x200000)], true) := by
    decide +kernel
  obtain ⟨⟨v', ok⟩, result, seen⟩ := map_eq_some_iff.mp executed
  simp only [Prod.mk.injEq] at seen
  obtain ⟨log, rfl⟩ := seen
  refine ⟨v', result, log, ?_⟩
  obtain ⟨r, member, base, _, iff⟩ := munmap_frame neighbours_spaces result
  have first : r = 1 := by
    rcases neighbours_ids member with ⟨_, rfl | rfl | rfl⟩ | ⟨impossible, _⟩
    · rfl
    · exact absurd base (by decide)
    · exact absurd base (by decide)
    · cases impossible
  subst first
  refine iff.mpr ⟨fun i past bound => ?_, fun i bound outside => ?_, by decide⟩
  · exact absurd bound (Nat.not_lt.mpr past)
  · refine absurd ⟨i, bound, ?_⟩ outside
    exact (neighbours_spaces.pageAt member bound).1

/-- A count that is too large takes the neighbour's page; the mapping of the
segment gives away a frame another process maps. -/
theorem munmap_frame_strays : (∃ v', sysMunmap neighbours.vm 1 0x40000000 3 = some (v', true) ∧
      ¬ Framed neighbours [1, 2, 3] 1 1 v') ∧ ∃ v', sysMunmap neighbours.vm 1 0x60000000 1 = some
    (v', true) ∧ ¬ Framed neighbours [1, 2, 3] 1 3 v' := by
  have overshoot : (sysMunmap neighbours.vm 1 0x40000000 3).map
      (fun out => (lookup out.1 1 0x40002000, out.2)) = some (none, true) := by
    decide +kernel
  have shared : (sysMunmap neighbours.vm 1 0x60000000 1).map
      (fun out => (out.1.free 0x203000, out.2)) = some (true, true) := by
    decide +kernel
  obtain ⟨⟨v', ok⟩, result, seen⟩ := map_eq_some_iff.mp overshoot
  obtain ⟨⟨w, ok'⟩, result', seen'⟩ := map_eq_some_iff.mp shared
  simp only [Prod.mk.injEq] at seen seen'
  obtain ⟨unmapped, rfl⟩ := seen
  obtain ⟨freed, rfl⟩ := seen'
  refine ⟨⟨v', result, fun framed => ?_⟩, w, result', fun framed => ?_⟩
  · have kept := framed.others 2 (by decide) (by decide) 0x40002000 ⟨0, by decide, by decide⟩
    rw [unmapped] at kept
    exact absurd kept (by decide)
  · rcases framed.freed 0x203000 freed with old | ⟨unused, _⟩
    · cases old
    · exact unused (neighbours_uses.mpr rfl)

end MainDob.Kernel.Shm
