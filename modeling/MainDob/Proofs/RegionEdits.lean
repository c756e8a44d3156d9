/-
Purpose: The region operations as edits of the set of regions of a process: one region comes or
  goes and every other region is as it was.
Main exports: SameRegion, Regular.congr, Regular.commits
-/
import MainDob.Kernel.Vm
import MainDob.Proofs.RegionList

namespace MainDob.Kernel.Regions

open List

/-- The two nodes are the same region, up to the pages committed in it and its
neighbours. -/
structure SameRegion (r r' : Vregion) : Prop where
  base : r'.base = r.base
  pages : r'.pages = r.pages
  flags : r'.flags = r.flags
  backingId : r'.backingId = r.backingId

section Same

variable {r r' : Vregion} {s s' : Space} {ids : List Nat}

theorem SameRegion.refl (r : Vregion) : SameRegion r r := ⟨rfl, rfl, rfl, rfl⟩

theorem SameRegion.trans {r'' : Vregion} (one : SameRegion r r')
    (two : SameRegion r' r'') : SameRegion r r'' :=
  ⟨two.base.trans one.base, two.pages.trans one.pages,
    two.flags.trans one.flags, two.backingId.trans one.backingId⟩

theorem SameRegion.of_bare (same : r'.bare = r.bare) : SameRegion r r' := by
  simp only [Vregion.bare, Vregion.mk.injEq] at same
  exact ⟨same.1, same.2.1, same.2.2.1, same.2.2.2.1⟩

theorem SameRegion.stop (same : SameRegion r r') : r'.stop = r.stop := by
  rw [Vregion.stop, Vregion.stop, same.base, same.pages]

theorem SameRegion.has (same : SameRegion r r') (flag : Nat) : r'.has flag = r.has flag := by
  rw [Vregion.has, Vregion.has, same.flags]

theorem SameRegion.devicePages (same : SameRegion r r') : r'.devicePages = r.devicePages := by
  rw [Vregion.devicePages, Vregion.devicePages, same.has, same.pages]

theorem Regular.congr (regular : Regular s ids) (live : s'.live = s.live) (vl : s'.vl = s.vl)
    (same : ∀ p ∈ ids, SameRegion (s.nodes p) (s'.nodes p))
    (next : ∀ p ∈ ids, (s'.nodes p).next = (s.nodes p).next)
    (prev : ∀ p ∈ ids, (s'.nodes p).prev = (s.nodes p).prev) : Regular s' ids := by
  have sums : ∀ (measure : Vregion → Nat), (∀ p ∈ ids,
      measure (s'.nodes p).bare = measure (s.nodes p).bare) →
      ((s'.regionsAt ids).map measure).sum = ((s.regionsAt ids).map measure).sum := by
    intro measure equal
    simp only [Space.regionsAt, map_map]
    rw [map_congr_left (f := measure ∘ fun p => (s'.nodes p).bare)
      (g := measure ∘ fun p => (s.nodes p).bare) equal]
  constructor
  case tracks =>
    refine ⟨?_, regular.tracks.distinct, ?_, ?_⟩
    · rw [vl]
      exact regular.tracks.links.congr next prev
    · rw [live]
      exact regular.tracks.alive
    · rw [live]
      exact regular.tracks.once
  case laid =>
    constructor
    · intro r member
      obtain ⟨p, inList, rfl⟩ := mem_map.mp member
      have old := regular.laid.sane _ (mem_map_of_mem inList)
      have region := same p inList
      refine ⟨?_, ?_, ?_⟩
      · rw [bare_base, region.base]
        exact old.aligned
      · rw [bare_pages, region.pages]
        exact old.least
      · rw [bare_stop, region.stop]
        exact old.inside
    · refine pairwise_map.mpr ?_
      refine (pairwise_map.mp regular.laid.sorted).imp_of_mem ?_
      intro p q pIn qIn le
      rw [bare_stop, bare_base, (same p pIn).stop, (same q qIn).base]
      exact le
  case count => rw [vl, regular.count]
  case total =>
    rw [vl, regular.total]
    exact (sums Vregion.pages fun p member => (same p member).pages).symm
  case device =>
    rw [vl, regular.device]
    exact (sums Vregion.devicePages fun p member => (same p member).devicePages).symm

theorem Regular.set (regular : Regular s ids) {n : Nat} {r : Vregion} (same : SameRegion
    (s.nodes n) r) (next : r.next = (s.nodes n).next) (prev : r.prev = (s.nodes n).prev) :
    Regular (s.set n r) ids ∧ ∀ p, SameRegion (s.nodes p) ((s.set n r).nodes p) := by
  have regions : ∀ p, SameRegion (s.nodes p) ((s.set n r).nodes p) := by
    intro p
    rw [set_nodes, Function.update_apply]
    split
    · next here =>
        subst here
        exact same
    · exact .refl _
  refine ⟨regular.congr rfl rfl (fun p _ => regions p) ?_ ?_, regions⟩
  · intro p _
    rw [set_nodes, Function.update_apply]
    split
    · next here =>
        subst here
        exact next
    · rfl
  · intro p _
    rw [set_nodes, Function.update_apply]
    split
    · next here =>
        subst here
        exact prev
    · rfl

theorem Regular.commits (regular : Regular s ids) (virt pages : Nat) :
    ∃ s', UserMem.commit s virt pages = some s' ∧
    Regular s' ids ∧ s'.live = s.live ∧ ∀ p, SameRegion (s.nodes p) (s'.nodes p) := by
  rw [UserMem.commit, regular.findExact]
  cases ids.find? fun p => (s.nodes p).base == virt with
  | none => exact ⟨s, rfl, regular, rfl, fun p => .refl _⟩
  | some n =>
    obtain ⟨regular', regions⟩ := regular.set
      (r := { s.nodes n with committed := pages }) ⟨rfl, rfl, rfl, rfl⟩ rfl
      rfl
    exact ⟨_, rfl, regular', rfl, regions⟩

end Same

/-- The region `r` came to the list as the node `n`. -/
structure Added (s s' : Space) (ids ids' : List Nat) (n : Nat) (r : Vregion) :
    Prop where
  regular : Regular s' ids'
  fresh : n ∉ ids
  members : ∀ p, p ∈ ids' ↔ p = n ∨ p ∈ ids
  node : SameRegion r (s'.nodes n)
  others : ∀ p ∈ ids, SameRegion (s.nodes p) (s'.nodes p)

/-- The node `n` went from the list. -/
structure Removed (s s' : Space) (ids ids' : List Nat) (n : Nat) : Prop where
  regular : Regular s' ids'
  present : n ∈ ids
  absent : n ∉ ids'
  members : ∀ p, p ∈ ids ↔ p = n ∨ p ∈ ids'
  others : ∀ p ∈ ids', SameRegion (s.nodes p) (s'.nodes p)
  shorter : ids.length = ids'.length + 1

section Edits

variable {s s' : Space} {ids front back : List Nat} {n : Nat} {r : Vregion}

theorem regionsAt_inj {list : List Nat} (equal : s'.regionsAt list = s.regionsAt list) :
    ∀ p ∈ list, SameRegion (s.nodes p) (s'.nodes p) :=
  fun p member => .of_bare (map_inj_left.mp equal p member)

theorem added_of_link (linked : Regular s' (front ++ n :: back))
    (regions : s'.regionsAt (front ++ n :: back) = s.regionsAt front ++ r :: s.regionsAt back) :
    Added s s' (front ++ back) (front ++ n :: back) n r := by
  rw [regionsAt_append, regionsAt_cons] at regions
  obtain ⟨before, rest⟩ := append_inj regions (by simp [Space.regionsAt])
  obtain ⟨here, after⟩ := List.cons.inj rest
  constructor
  case regular => exact linked
  case fresh =>
    intro member
    have distinct := linked.tracks.distinct
    rw [nodup_middle] at distinct
    exact (nodup_cons.mp distinct).1 member
  case members =>
    intro p
    simp only [mem_append, mem_cons]
    constructor
    · rintro (a | b | c)
      · exact .inr (.inl a)
      · exact .inl b
      · exact .inr (.inr c)
    · rintro (b | a | c)
      · exact .inr (.inl b)
      · exact .inl a
      · exact .inr (.inr c)
  case node =>
    rw [← here]
    exact ⟨rfl, rfl, rfl, rfl⟩
  case others =>
    intro p member
    rcases mem_append.mp member with inFront | inBack
    · exact regionsAt_inj before p inFront
    · exact regionsAt_inj after p inBack

theorem removed_of_unlink (regular : Regular s (front ++ n :: back)) (unlinked : Regular s'
    (front ++ back)) (regions : s'.regionsAt (front ++ back) = s.regionsAt front ++
    s.regionsAt back) : Removed s s' (front ++ n :: back) (front ++ back) n := by
  rw [← regionsAt_append] at regions
  have distinct := regular.tracks.distinct
  rw [nodup_middle] at distinct
  constructor
  case regular => exact unlinked
  case present => simp
  case absent => exact (nodup_cons.mp distinct).1
  case members =>
    intro p
    simp only [mem_append, mem_cons]
    constructor
    · rintro (a | b | c)
      · exact .inr (.inl a)
      · exact .inl b
      · exact .inr (.inr c)
    · rintro (b | a | c)
      · exact .inr (.inl b)
      · exact .inl a
      · exact .inr (.inr c)
  case others => exact regionsAt_inj regions
  case shorter =>
    simp only [length_append, length_cons]
    omega

theorem Added.congr {s'' : Space} {ids' : List Nat} (added : Added s s' ids ids' n r)
    (regular : Regular s'' ids') (same : ∀ p, SameRegion (s'.nodes p) (s''.nodes p)) :
    Added s s'' ids ids' n r where
  regular := regular
  fresh := added.fresh
  members := added.members
  node := added.node.trans (same n)
  others p member := (added.others p member).trans (same p)

theorem Regular.adds (regular : Regular s ids) (pages minAddr maxAddr flags : Nat) (backingId : Int)
    (fresh : Option Nat) (sizeFits : pages * pageSize < wordSize)
    (lowFits : minAddr + (pageSize - 1) < wordSize) (highFits : maxAddr < wordSize)
    (isFresh : ∀ p, fresh = some p → p ∉ s.live) :
    vregionAlloc s pages minAddr maxAddr flags backingId fresh = some (s, 0) ∨ ∃ n s' ids' cand,
    fresh = some n ∧ vregionAlloc s pages minAddr maxAddr flags backingId fresh = some (s', cand) ∧
      0 < pages ∧ cand % pageSize = 0 ∧ minAddr ≤ cand ∧ cand + pages * pageSize ≤ maxAddr ∧
      Added s s' ids ids' n ⟨cand, pages, flags, backingId, 0, none, none⟩ := by
  by_cases least : 0 < pages
  · rcases regular.alloc pages minAddr maxAddr flags backingId fresh least
        sizeFits lowFits highFits isFresh with
      ⟨n, front, back, cand, s', given, whole, result, fits, _, linked, regions⟩ | ⟨result, _⟩
    · subst whole
      exact .inr ⟨n, s', _, cand, given, result, least, fits.1, fits.2.1,
        fits.2.2.1, added_of_link linked regions⟩
    · exact .inl result
  · left
    have zero : pages = 0 := Nat.eq_zero_of_not_pos least
    rw [vregionAlloc, if_pos zero]

theorem Regular.inserts (regular : Regular s ids) (addr pages flags : Nat) (fresh : Option Nat)
    (least : 0 < pages) (sizeFits : pages * pageSize < wordSize) (small : addr < wordSize)
    (isFresh : ∀ p, fresh = some p → p ∉ s.live) : vregionInsert s addr pages flags fresh = some
    (s, none) ∨ ∃ n s' ids', fresh = some n ∧ vregionInsert s addr pages flags fresh = some
    (s', some n) ∧ alignDown addr + pages * pageSize < wordSize ∧
      Added s s' ids ids' n ⟨alignDown addr, pages, flags, -1, 0, none, none⟩ := by
  by_cases fits : alignDown addr + pages * pageSize < wordSize
  · rcases regular.insert addr pages flags fresh least fits isFresh with
      ⟨n, front, back, s', given, whole, result, _, linked, regions⟩ |
      ⟨result, _⟩
    · subst whole
      exact .inr ⟨n, s', _, given, result, fits, added_of_link linked regions⟩
    · exact .inl result
  · -- the end wraps, and the call sees it before the base
    left
    have wraps : add32 (alignDown addr) (mul32 pages pageSize) < alignDown addr := by
      simp only [add32, mul32, alignDown, wordSize, pageSize] at *
      omega
    rw [vregionInsert]
    simp only [wraps, if_true]

theorem Regular.removes (regular : Regular s ids) (base : Nat) :
    (vregionFree s base = some (s, 0) ∧ ∀ p ∈ ids, (s.nodes p).base ≠ base) ∨
    ∃ n s' ids', vregionFindExact s base = some (some n) ∧ (s.nodes n).base = base ∧
      vregionFree s base = some (s', (s.nodes n).pages) ∧ Removed s s' ids ids' n := by
  rcases regular.free base with ⟨result, nowhere⟩ |
    ⟨n, front, back, s', whole, start, result, unlinked, regions⟩
  · exact .inl ⟨result, nowhere⟩
  subst whole
  refine .inr ⟨n, s', _, ?_, start, result, removed_of_unlink regular unlinked regions⟩
  obtain ⟨found, search, unique⟩ := regular.contract.findExact base
  rw [search, (unique n).mpr ⟨by simp, start⟩]

end Edits

end MainDob.Kernel.Regions
