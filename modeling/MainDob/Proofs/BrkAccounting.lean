/-
Purpose: Region list, break and mapped pages over runs of sys_mmap, sys_munmap
  and sys_brk.  sys_brk edits the record of its region without the counters of
  the list and makes it empty first, so the accounts hold in the runs where it
  is refused a region or leaves the number of pages of its region as it is.
Main exports: HeapOk, Accounted, brk_accounting
-/
import MainDob.Proofs.SharedMappings
import MainDob.Proofs.UserHalf

namespace MainDob.Kernel.UserMem

open Lib
open Regions
open Shm (Covers covers_unique setSpace_same)
open List Option Function

/-- The pages of the heap, from its start to the break, are those of the heap
region, and all of them are mapped.  Without a heap region the heap is empty. -/
def HeapOk (v : Vm) (q : Nat) (ids : List Nat) : Prop :=
  match (v.procs q).heapRegion with
  | none => (v.procs q).brkCurrent = (v.procs q).brkStart
  | some hr => hr ∈ ids ∧ (v.procs q).brkStart ≠ 0 ∧
      ((v.procs q).space.nodes hr).base = (v.procs q).brkStart ∧
      ((v.procs q).space.nodes hr).stop = alignUp (v.procs q).brkCurrent ∧
      (v.procs q).brkCurrent ≤ 0x40000000 ∧
      ∀ page, Covers ((v.procs q).space.nodes hr) page → (lookup v q page).isSome = true

/-- Every process has a regular list of regions `ids`, and a heap that agrees
with it. -/
structure Accounted (v : Vm) (ids : Nat → List Nat) : Prop where
  regular : ∀ q, Regular (v.procs q).space (ids q)
  heap : ∀ q, HeapOk v q (ids q)

section Heap

variable {v v' : Vm} {q : Nat} {ids ids' : List Nat}

theorem HeapOk.congr (heap : HeapOk v q ids) (start : (v'.procs q).brkStart = (v.procs q).brkStart)
    (current : (v'.procs q).brkCurrent = (v.procs q).brkCurrent)
    (region : (v'.procs q).heapRegion = (v.procs q).heapRegion)
    (kept : ∀ hr ∈ ids, (v.procs q).heapRegion = some hr → hr ∈ ids' ∧
      SameRegion ((v.procs q).space.nodes hr) ((v'.procs q).space.nodes hr))
    (look : ∀ hr ∈ ids, (v.procs q).heapRegion = some hr → ∀ page,
      page < userSpaceLimit → Covers ((v.procs q).space.nodes hr) page →
      lookup v' q page = lookup v q page) : HeapOk v' q ids' := by
  unfold HeapOk at heap ⊢
  rw [start, current, region]
  cases held : (v.procs q).heapRegion with
  | none =>
    rw [held] at heap
    exact heap
  | some hr =>
    rw [held] at heap
    obtain ⟨member, notZero, base, stop, capped, mapped⟩ := heap
    obtain ⟨still, same⟩ := kept hr member held
    refine ⟨still, notZero, same.base.trans base, same.stop.trans stop,
      capped, fun page covered => ?_⟩
    have old := (Covers.congr same).mp covered
    have low : page < userSpaceLimit := by
      have below := old.bounds.2
      rw [stop] at below
      exact lt_of_lt_of_le below (le_trans (alignUp_le capped) (by decide))
    rw [look hr member held page low old]
    exact mapped page old

theorem not_sees {pid page : Nat} (other : q ≠ pid)
    (low : page < userSpaceLimit) : ¬ Sees pid q page := by
  rintro (same | high)
  · exact other same
  · exact absurd low (Nat.not_lt.mpr high)

end Heap

/-! ### mmap and munmap -/

section Regions

variable {v v' : Vm} {ids : Nat → List Nat} {pid virt pages : Nat}
variable {fresh : Option Nat} {grants : List Nat}

theorem mmapRegion_spec {space : Space} {list : List Nat} (regular : Regular space list)
    (least : 0 < pages) (few : pages ≤ 4096) (small : virt < wordSize)
    (isFresh : ∀ p, fresh = some p → p ∉ space.live) : mmapRegion space virt pages fresh = some
    (space, 0) ∨ ∃ n space' list' base, base ≠ 0 ∧ mmapRegion space virt pages fresh = some
    (space', base) ∧ base + pages * pageSize < wordSize ∧ Added space space' list list' n
        ⟨base, pages, vregMmap ||| vregUserRw, -1, 0, none, none⟩ := by
  have sizeFits : pages * pageSize < wordSize := by
    simp only [pageSize, wordSize]
    omega
  unfold mmapRegion
  split
  · rcases regular.adds pages 0x40000000 0x5FFFFFFF (vregMmap ||| vregUserRw)
        (-1) fresh sizeFits (by decide) (by decide) isFresh with
      refused | ⟨n, space', list', base, _, result, _, _, low, high, added⟩
    · exact .inl refused
    refine .inr ⟨n, space', list', base, by omega, result, ?_, added⟩
    simp only [wordSize]
    omega
  next fixed =>
    split
    · exact .inl rfl
    next aligned =>
      have exact' : alignDown virt = virt := by
        simp only [alignDown, pageSize] at *
        omega
      rcases regular.inserts virt pages (vregMmap ||| vregUserRw) fresh
          least sizeFits small isFresh with
        refused | ⟨n, space', list', _, result, fits, added⟩
      · left
        rw [refused]
        rfl
      · rw [exact'] at fits added
        refine .inr ⟨n, space', list', virt, fixed, ?_, fits, added⟩
        rw [result]
        rfl

theorem pageAt_covers {base n i : Nat} (fits : base + n * pageSize < wordSize)
    (bound : i < n) : pageAt base i = base + i * pageSize := by
  simp only [pageAt, add32, mul32, wordSize, pageSize] at *
  omega

theorem added_outside {space space' : Space} {list list' : List Nat} {n base : Nat} {r : Vregion}
    (added : Added space space' list list' n r) (start : r.base = base) (count : r.pages = pages)
    (fits : base + pages * pageSize < wordSize) {p page : Nat} (member : p ∈ list) (covered : Covers
    (space.nodes p) page) {i : Nat} (bound : i < pages) : page ≠ pageAt base i := by
  rintro rfl
  rw [pageAt_covers fits bound] at covered
  have here : Covers (space'.nodes n) (base + i * pageSize) := by
    refine (Covers.congr added.node).mpr ⟨i, ?_, ?_⟩
    · rw [count]
      exact bound
    · rw [start]
  have same := covers_unique added.regular ((added.members p).mpr (.inr member))
    ((added.members n).mpr (.inl rfl)) ((Covers.congr (added.others p member)).mpr covered) here
  rw [same] at member
  exact added.fresh member

theorem Accounted.sysMmap (accounted : Accounted v ids) {addr : Nat} (small : virt < wordSize)
    (isFresh : ∀ p, fresh = some p → p ∉ (v.procs pid).space.live)
    (result : sysMmap v pid virt pages fresh grants = some (v', addr)) :
    ∃ ids', Accounted v' ids' := by
  rcases sysMmap_cases result with ⟨_, rfl, _⟩ | ⟨least, few, space, base, region, path⟩
  · exact ⟨ids, accounted⟩
  rcases mmapRegion_spec (accounted.regular pid) least few small isFresh with
    refused | ⟨n, space', list, base', notZero, region', fits, added⟩
  · rw [region] at refused
    cases refused
    rcases path with ⟨_, rfl, _⟩ | ⟨impossible, _⟩
    · rw [setSpace_same]
      exact ⟨ids, accounted⟩
    · exact absurd rfl impossible
  rw [region] at region'
  cases region'
  rcases path with ⟨zero, _⟩ | ⟨_, x, mapped, all, mapping, outcome⟩
  · exact absurd zero notZero
  obtain ⟨maps, _, count, _, _⟩ := mapRange_spec mapping
  have within : ∀ i, i < mapped → i < pages := by
    intro i bound
    omega
  have spaceOf : (x.procs pid).space = space := by rw [(maps.procs pid).1, setSpace_self]
  -- pages of the heaps are mapped as before
  have look : ∀ q, ∀ hr ∈ ids q, ∀ page, page < userSpaceLimit →
      Covers ((v.procs q).space.nodes hr) page →
      ¬ ((∃ i, i < mapped ∧ page = pageAt base i) ∧ Sees pid q page) := by
    rintro q _ member _ low covered ⟨⟨i, bound, same⟩, sees⟩
    by_cases self : q = pid
    · subst self
      exact added_outside added rfl rfl fits member covered (within i bound) same
    · exact not_sees self low sees
  have mapKept : ∀ q, ∀ hr ∈ ids q, ∀ page, page < userSpaceLimit →
      Covers ((v.procs q).space.nodes hr) page → lookup x q page = lookup v q page := by
    intro q hr member page low covered
    rw [maps.kept q page, setSpace_lookup]
    rintro ⟨⟨i, _, bound, same⟩, sees⟩
    exact look q hr member page low covered ⟨⟨i, bound, same⟩, sees⟩
  have fields : ∀ q, (x.procs q).brkStart = (v.procs q).brkStart ∧
      (x.procs q).brkCurrent = (v.procs q).brkCurrent ∧
      (x.procs q).heapRegion = (v.procs q).heapRegion := by
    intro q
    obtain ⟨_, start, current, held⟩ := maps.procs q
    by_cases self : q = pid
    · subst self
      simp only [Vm.setSpace, setProc_self] at start current held
      exact ⟨start, current, held⟩
    · rw [setSpace_other self] at start current held
      exact ⟨start, current, held⟩
  -- a list for the process, and the others as they were
  have finish : ∀ {w : Vm} {space'' : Space} {list' : List Nat}, SameProcs x w →
      (∀ q, ∀ hr ∈ ids q, ∀ page, page < userSpaceLimit → Covers ((v.procs q).space.nodes hr) page →
        lookup w q page = lookup v q page) → Regular space'' list' →
      (∀ p ∈ ids pid, p ∈ list' ∧ SameRegion ((v.procs pid).space.nodes p) (space''.nodes p)) →
      Accounted (w.setSpace pid space'') (Function.update ids pid list') := by
    intro w space'' list' procs kept regular olds
    constructor
    case regular =>
      intro q
      by_cases self : q = pid
      · subst self
        rw [update_self, setSpace_self]
        exact regular
      · rw [update_of_ne self, setSpace_other self, (procs q).1,
          (maps.procs q).1, setSpace_other self]
        exact accounted.regular q
    case heap =>
      intro q
      obtain ⟨start, current, held⟩ := fields q
      obtain ⟨_, start', current', held'⟩ := procs q
      by_cases self : q = pid
      · subst self
        rw [update_self]
        refine (accounted.heap q).congr ?_ ?_ ?_ ?_ ?_
        · simpa [Vm.setSpace] using start'.trans start
        · simpa [Vm.setSpace] using current'.trans current
        · simpa [Vm.setSpace] using held'.trans held
        · intro hr member _
          rw [setSpace_self]
          exact olds hr member
        · intro hr member _ page low covered
          rw [setSpace_lookup]
          exact kept q hr member page low covered
      · rw [update_of_ne self]
        refine (accounted.heap q).congr ?_ ?_ ?_ ?_ ?_
        · rw [setSpace_other self]
          exact start'.trans start
        · rw [setSpace_other self]
          exact current'.trans current
        · rw [setSpace_other self]
          exact held'.trans held
        · intro hr member _
          rw [setSpace_other self, (procs q).1, (maps.procs q).1, setSpace_other self]
          exact ⟨member, .refl _⟩
        · intro hr member _ page low covered
          rw [setSpace_lookup]
          exact kept q hr member page low covered
  rcases outcome with ⟨_, _, space'', committed, rfl⟩ | ⟨_, _, space'', k, freed, rfl⟩
  · obtain ⟨_, committed', regular, _, same⟩ := added.regular.commits base pages
    rw [spaceOf, committed'] at committed
    cases committed
    refine ⟨_, finish (.refl x) mapKept regular fun p member => ?_⟩
    exact ⟨(added.members p).mpr (.inr member), (added.others p member).trans (same p)⟩
  -- memory ran out: the pages and the region go again
  have unmaps := unmapUserRange_spec x pid base mapped true
  rw [(unmaps.procs pid).1, spaceOf] at freed
  rcases added.regular.removes base with ⟨_, nowhere⟩ |
    ⟨n', space₃, list', search, start, freed', removed⟩
  · exact absurd added.node.base (nowhere n ((added.members n).mpr (.inl rfl)))
  rw [freed] at freed'
  cases freed'
  have same : n' = n := by
    obtain ⟨_, search', unique⟩ := added.regular.contract.findExact base
    rw [search] at search'
    cases search'
    exact Option.some.inj ((unique n).mpr ⟨(added.members n).mpr (.inl rfl), added.node.base⟩)
  subst same
  refine ⟨_, finish unmaps.procs ?_ removed.regular fun p member => ?_⟩
  · intro q hr member page low covered
    rw [unmaps.kept q page (look q hr member page low covered)]
    exact mapKept q hr member page low covered
  · have other : p ≠ n' := fun same => added.fresh (same ▸ member)
    have still := ((removed.members p).mp ((added.members p).mpr (.inr member))).resolve_left other
    exact ⟨still, (added.others p member).trans (removed.others p still)⟩

theorem Accounted.sysMunmap (accounted : Accounted v ids) {ok : Bool} (guard : pages ≠ 0 →
    virt % pageSize = 0 → ∀ r, vregionFindExact (v.procs pid).space virt = some (some r) →
      ((v.procs pid).space.nodes r).has vregFixed = false →
      ∀ hr, (v.procs pid).heapRegion = some hr → hr ≠ r ∧ ∀ i, i < pages →
        ¬ Covers ((v.procs pid).space.nodes hr) (pageAt virt i))
    (result : sysMunmap v pid virt pages = some (v', ok)) : ∃ ids', Accounted v' ids' := by
  rcases sysMunmap_cases result with ⟨_, rfl⟩ |
    ⟨_, some', aligned, r, search, notFixed, space, n, freed, rfl⟩
  · exact ⟨ids, accounted⟩
  have apart := guard some' aligned r search notFixed
  have unmaps := unmapUserRange_spec v pid virt pages
    (!((v.procs pid).space.nodes r).has vregDevice)
  generalize unmapUserRange v pid virt pages
    (!((v.procs pid).space.nodes r).has vregDevice) = x at unmaps freed ⊢
  rw [(unmaps.procs pid).1] at freed
  have found : r ∈ ids pid ∧ ((v.procs pid).space.nodes r).base = virt := by
    obtain ⟨_, search', unique⟩ := (accounted.regular pid).contract.findExact virt
    rw [search] at search'
    exact (unique r).mp (Option.some.inj search').symm
  rcases (accounted.regular pid).removes virt with ⟨_, nowhere⟩ |
    ⟨r', space', list, search', _, freed', removed⟩
  · exact absurd found.2 (nowhere r found.1)
  rw [freed] at freed'
  cases freed'
  rw [search] at search'
  cases search'
  refine ⟨Function.update ids pid list, ⟨fun q => ?_, fun q => ?_⟩⟩
  · by_cases self : q = pid
    · subst self
      rw [update_self, setSpace_self]
      exact removed.regular
    · rw [update_of_ne self, setSpace_other self, (unmaps.procs q).1]
      exact accounted.regular q
  obtain ⟨_, start, current, held⟩ := unmaps.procs q
  by_cases self : q = pid
  · subst self
    rw [update_self]
    refine (accounted.heap q).congr ?_ ?_ ?_ ?_ ?_
    · simpa [Vm.setSpace] using start
    · simpa [Vm.setSpace] using current
    · simpa [Vm.setSpace] using held
    · intro hr member heap
      rw [setSpace_self]
      have still := ((removed.members hr).mp member).resolve_left (apart hr heap).1
      exact ⟨still, removed.others hr still⟩
    · intro hr member heap page low covered
      rw [setSpace_lookup]
      refine unmaps.kept q page ?_
      rintro ⟨⟨i, bound, rfl⟩, _⟩
      exact (apart hr heap).2 i bound covered
  · rw [update_of_ne self]
    refine (accounted.heap q).congr ?_ ?_ ?_ ?_ ?_
    · rw [setSpace_other self]
      exact start
    · rw [setSpace_other self]
      exact current
    · rw [setSpace_other self]
      exact held
    · intro hr member _
      rw [setSpace_other self, (unmaps.procs q).1]
      exact ⟨member, .refl _⟩
    · intro hr member _ page low _
      rw [setSpace_lookup]
      exact unmaps.kept q page fun both => not_sees self low both.2

end Regions

/-! ### brk -/

/-- What a failing brk leaves as it was. -/
structure Unharmed (v v' : Vm) (pid : Nat) : Prop where
  regions : (v'.procs pid).space = (v.procs pid).space
  /-- A query shows the same break. -/
  brk : (lazyBrk (v'.procs pid)).brkCurrent = (lazyBrk (v.procs pid)).brkCurrent
  others : ∀ q, q ≠ pid → (v'.procs q).space = (v.procs q).space
  pages : ∀ q page, lookup v' q page = lookup v q page

/-- The brk finds no region at the start of the heap and is refused an empty
one; or it has its region and leaves the page of the break where it is, or
cannot grow: the next region is in the way, or there are too few frames for
pages that are not mapped. -/
def BrkHarmless (v : Vm) (pid newBrk : Nat) (fresh : Option Nat) (grants : List Nat) : Prop :=
  let proc := lazyBrk (v.procs pid)
  let oldPage := alignUp proc.brkCurrent
  let newPage := alignUp newBrk
  pid = 0 ∨ (proc.heapRegion = none ∧ vregionFindExact proc.space proc.brkStart = some none ∧
      ∃ space, vregionInsert proc.space proc.brkStart 0
        (vregHeap ||| vregUserRw) fresh = some (space, none)) ∨ ∃ hr, proc.heapRegion = some hr ∧
      (newBrk = 0 ∨ 0x40000000 < newBrk ∨ newBrk < proc.brkStart ∨ newPage = oldPage ∨
        (oldPage < newPage ∧ (brkInvades proc hr (sub32 newPage proc.brkStart / pageSize) = true ∨
            (grants.length < (newPage - oldPage) / pageSize ∧
              ∀ i, i < grants.length → lookup v pid (pageAt oldPage i) = none))))

section Brk

variable {v v' : Vm} {ids : Nat → List Nat} {pid newBrk : Nat}
variable {fresh : Option Nat} {grants : List Nat}

theorem vregionInsert_none {s s' : Space} {addr pages flags : Nat}
    (result : vregionInsert s addr pages flags fresh = some (s', none)) : s' = s := by
  unfold vregionInsert at result
  dsimp only at result
  split at result
  · cases result
    rfl
  split at result
  · cases result
  · cases result
    rfl
  cases fresh with
  | none =>
    cases result
    rfl
  | some => cases result

theorem lazyBrk_held {proc : Proc} (notZero : proc.brkStart ≠ 0) :
    lazyBrk proc = proc := if_neg notZero

theorem setProc_same (v : Vm) (pid : Nat) : v.setProc pid (v.procs pid) = v := by
  unfold Vm.setProc
  rw [update_eq_self]

theorem Unharmed.refl (v : Vm) (pid : Nat) : Unharmed v v pid :=
  ⟨rfl, rfl, fun _ _ => rfl, fun _ _ => rfl⟩

theorem rollback {oldPage mapped left : Nat} {x : Vm} {all : Bool}
    (mapping : mapRange pid oldPage left 0 grants v = some (x, mapped, all))
    (unused : ∀ i, i < mapped → lookup v pid (pageAt oldPage i) = none) (below : ∀ i, i < mapped →
    pageAt oldPage i < userSpaceLimit) : SameProcs v (unmapUserRange x pid oldPage mapped true) ∧
      ∀ q page, lookup (unmapUserRange x pid oldPage mapped true) q page = lookup v q page := by
  obtain ⟨maps, _, _, _, _⟩ := mapRange_spec mapping
  have unmaps := unmapUserRange_spec x pid oldPage mapped true
  refine ⟨maps.procs.trans unmaps.procs, fun q page => ?_⟩
  by_cases inside : (∃ i, i < mapped ∧ page = pageAt oldPage i) ∧ Sees pid q page
  · rw [unmaps.gone q page inside.1 inside.2]
    obtain ⟨⟨i, bound, rfl⟩, sees⟩ := inside
    have self : q = pid := sees.resolve_right fun high =>
      absurd (below i bound) (Nat.not_lt.mpr high)
    rw [self, unused i bound]
  · rw [unmaps.kept q page inside, maps.kept q page]
    rintro ⟨⟨i, _, bound, same⟩, sees⟩
    exact inside ⟨⟨i, bound, same⟩, sees⟩

section

variable (accounted : Accounted v ids)
include accounted

theorem Accounted.congr (procs : SameProcs v v')
    (look : ∀ q page, lookup v' q page = lookup v q page) : Accounted v' ids where
  regular q := by
    rw [(procs q).1]
    exact accounted.regular q
  heap q := by
    obtain ⟨space, start, current, held⟩ := procs q
    refine (accounted.heap q).congr start current held ?_ ?_
    · intro hr member _
      rw [space]
      exact ⟨member, .refl _⟩
    · exact fun hr _ _ page _ _ => look q page

theorem Accounted.setProc {proc : Proc} (space : proc.space = (v.procs pid).space)
    (pte : proc.pte = (v.procs pid).pte) (heap : HeapOk (v.setProc pid proc) pid (ids pid)) :
    Accounted (v.setProc pid proc) ids where
  regular q := by
    by_cases self : q = pid
    · subst self
      rw [setProc_self, space]
      exact accounted.regular q
    · rw [setProc_other self]
      exact accounted.regular q
  heap q := by
    by_cases self : q = pid
    · subst self
      exact heap
    refine (accounted.heap q).congr ?_ ?_ ?_ ?_ ?_
    · rw [setProc_other self]
    · rw [setProc_other self]
    · rw [setProc_other self]
    · intro hr member _
      rw [setProc_other self]
      exact ⟨member, .refl _⟩
    · exact fun hr _ _ page _ _ => setProc_lookup pte

theorem Accounted.refused (noRegion : (v.procs pid).heapRegion = none) : Accounted (v.setProc pid
    (lazyBrk (v.procs pid))) ids ∧ Unharmed v (v.setProc pid (lazyBrk (v.procs pid))) pid := by
  have fields : (lazyBrk (v.procs pid)).space = (v.procs pid).space ∧ (lazyBrk
      (v.procs pid)).pte = (v.procs pid).pte ∧ (lazyBrk (v.procs pid)).heapRegion = none := by
    unfold lazyBrk
    split <;> exact ⟨rfl, rfl, noRegion⟩
  obtain ⟨space, pte, none'⟩ := fields
  have equal : (lazyBrk (v.procs pid)).brkCurrent = (lazyBrk (v.procs pid)).brkStart := by
    have heap := accounted.heap pid
    unfold HeapOk at heap
    rw [noRegion] at heap
    unfold lazyBrk
    split
    · rfl
    · exact heap
  have again : lazyBrk (lazyBrk (v.procs pid)) = lazyBrk (v.procs pid) := by
    refine lazyBrk_held ?_
    unfold lazyBrk
    split
    · show 0x10000000 ≠ 0
      decide
    · next notZero => exact notZero
  refine ⟨accounted.setProc space pte ?_, ?_, ?_, ?_, ?_⟩
  · unfold HeapOk
    rw [setProc_self, none']
    exact equal
  · rw [setProc_self, space]
  · rw [setProc_self, again]
  · intro q other
    rw [setProc_other other]
  · exact fun q page => setProc_lookup pte

theorem Accounted.sysBrk {ret : Int} (harmless : BrkHarmless v pid newBrk fresh grants)
    (result : sysBrk v pid newBrk fresh grants = some (v', ret)) :
    Accounted v' ids ∧ (ret = -1 → Unharmed v v' pid) := by
  rcases sysBrk_cases result with ⟨_, rfl, _⟩ | ⟨user, proc, look, rest⟩
  · exact ⟨accounted, fun _ => .refl v' pid⟩
  rcases harmless with kernel | ⟨noRegion, notFound, space, refused⟩ | ⟨hr, region, calm⟩
  · exact absurd kernel user
  · -- no heap region is found or made
    have proc' : proc = lazyBrk (v.procs pid) := by
      rcases heapLookup_cases look with ⟨hr, held, _⟩ |
        ⟨_, ⟨hr, found, _⟩ | ⟨_, space', node, inserted, rfl⟩⟩
      · rw [noRegion] at held
        cases held
      · rw [notFound] at found
        cases found
      · rw [refused] at inserted
        cases inserted
        rw [vregionInsert_none refused]
        rw [← noRegion]
    have old : (v.procs pid).heapRegion = none := by
      unfold lazyBrk at noRegion
      split at noRegion <;> exact noRegion
    subst proc'
    obtain ⟨after, unharmed⟩ := accounted.refused old
    rcases rest with ⟨rfl, _⟩ | ⟨hr, _, held, _⟩
    · exact ⟨after, fun _ => unharmed⟩
    · rw [noRegion] at held
      cases held
  · -- the process has its region
    have heap := accounted.heap pid
    have lazy' : lazyBrk (v.procs pid) = v.procs pid := by
      unfold HeapOk at heap
      cases held : (v.procs pid).heapRegion with
      | none =>
        unfold lazyBrk at region
        split at region
        · rw [show (v.procs pid).heapRegion = some hr from region] at held
          cases held
        · rw [held] at region
          cases region
      | some =>
        rw [held] at heap
        exact lazyBrk_held heap.2.1
    rw [lazy'] at look
    rw [lazy'] at region calm
    have proc' : proc = v.procs pid := by
      rcases heapLookup_cases look with ⟨_, _, same⟩ | ⟨none', _⟩
      · exact same
      · rw [region] at none'
        cases none'
    subst proc'
    rw [setProc_same] at rest
    rcases rest with ⟨rfl, _⟩ | ⟨hr', asked, held, capped, above, ok, moved, ret'⟩
    · exact ⟨accounted, fun _ => .refl v' pid⟩
    rw [region] at held
    cases held
    have grows : alignUp newBrk = alignUp (v.procs pid).brkCurrent ∨
        (alignUp (v.procs pid).brkCurrent < alignUp newBrk ∧ (brkInvades (v.procs pid) hr
              (sub32 (alignUp newBrk) (v.procs pid).brkStart / pageSize) = true ∨
            (grants.length < (alignUp newBrk - alignUp (v.procs pid).brkCurrent) / pageSize ∧
              ∀ i, i < grants.length → lookup v pid
                (pageAt (alignUp (v.procs pid).brkCurrent) i) = none))) := by
      rcases calm with zero | high | low | same | grows
      · exact absurd zero asked
      · exact absurd capped (Nat.not_le.mpr high)
      · exact absurd above (Nat.not_le.mpr low)
      · exact .inl same
      · exact .inr grows
    unfold HeapOk at heap
    rw [region] at heap
    obtain ⟨member, notZero, base, stop, cappedOld, mapped⟩ := heap
    rcases moveBrk_cases moved with ⟨_, _, rfl, _⟩ |
      ⟨larger, free, x, count, all, mapping, outcome⟩ | ⟨shrinks, _⟩ | ⟨same, rfl, rfl⟩
    · exact ⟨accounted, fun _ => .refl v' pid⟩
    · rcases grows with same | ⟨_, invades | ⟨short, unused⟩⟩
      · exact absurd larger (by omega)
      · rw [invades] at free
        cases free
      obtain ⟨_, _, counted, whole, _⟩ := mapRange_spec mapping
      rcases outcome with ⟨rfl, _⟩ | ⟨_, rfl, rfl⟩
      · have := whole rfl
        omega
      have room := between_below (alignUp_le capped) larger
      obtain ⟨procs, same⟩ := rollback mapping (fun i bound => unused i (by omega))
        fun i bound => pageAt_below room (by omega)
      refine ⟨accounted.congr procs same, fun _ => ⟨(procs pid).1, ?_,
        fun q _ => (procs q).1, same⟩⟩
      obtain ⟨_, start, current, _⟩ := procs pid
      rw [lazyBrk_held notZero, lazyBrk_held (by rw [start]; exact notZero), current]
    · exact absurd shrinks (by
        rcases grows with same | ⟨larger, _⟩
        · omega
        · omega)
    · refine ⟨accounted.setProc rfl rfl ?_, fun failed => ?_⟩
      · unfold HeapOk
        rw [setProc_self]
        rw [region]
        refine ⟨member, notZero, base, ?_, capped, fun page covered => ?_⟩
        · rw [← same]
          exact stop
        · rw [setProc_lookup]
          · exact mapped page covered
          · rfl
      · rw [failed] at ret'
        simp only [if_true] at ret'
        omega

end

end Brk

/-! ### Every run -/

/-- A brk is harmless; a munmap names neither the heap region nor a page of
it. -/
def Harmless (v : Vm) : Call → Prop
  | .mmap .. => True
  | .munmap pid virt pages =>
    pages ≠ 0 → virt % pageSize = 0 → ∀ r, vregionFindExact (v.procs pid).space virt = some
      (some r) → ((v.procs pid).space.nodes r).has vregFixed = false →
      ∀ hr, (v.procs pid).heapRegion = some hr →
      hr ≠ r ∧ ∀ i, i < pages → ¬ Covers ((v.procs pid).space.nodes hr) (pageAt virt i)
  | .brk pid newBrk fresh grants => BrkHarmless v pid newBrk fresh grants

/-- There is an account of the regions of the processes. -/
def HasAccounts (v : Vm) : Prop := ∃ ids, Accounted v ids

section Runs

variable {v v' : Vm} {ids : Nat → List Nat}

theorem Accounted.step (accounted : Accounted v ids) {call : Call} (taken : UserMem.step v call v')
    (harmless : Harmless v call) : HasAccounts v' := by
  obtain ⟨executed, registers, isFresh⟩ := taken
  cases call with
  | mmap =>
    obtain ⟨⟨_, _⟩, result, rfl⟩ := map_eq_some_iff.mp executed
    exact accounted.sysMmap registers.1 isFresh result
  | munmap =>
    obtain ⟨⟨_, _⟩, result, rfl⟩ := map_eq_some_iff.mp executed
    exact accounted.sysMunmap harmless result
  | brk =>
    obtain ⟨⟨_, _⟩, result, rfl⟩ := map_eq_some_iff.mp executed
    exact ⟨ids, (accounted.sysBrk harmless result).1⟩

/-- In every run of harmless calls, the region lists keep their invariant, the
heap is its region, and a harmless brk that fails changes nothing. -/
theorem brk_accounting {calls : List Call} (start : HasAccounts v)
    (run : Steps (Guarded UserMem.step Harmless) v calls v') : (∃ ids, Accounted v' ids) ∧
    ∀ pid newBrk fresh grants w, Harmless v' (.brk pid newBrk fresh grants) →
      sysBrk v' pid newBrk fresh grants = some (w, -1) → Unharmed v' w pid := by
  have kept : HasAccounts v' := run.invariant (fun _ _ _ old next => by
      obtain ⟨_, accounted⟩ := old
      exact accounted.step next.1 next.2)
    start
  refine ⟨kept, fun pid newBrk fresh grants w harmless failed => ?_⟩
  obtain ⟨_, accounted⟩ := kept
  exact (accounted.sysBrk harmless failed).2 rfl

/-- A process with one page of heap. -/
def heapSpace : Space where
  nodes := fun
    | 1 => ⟨0x10000000, 1, 1035, -1, 1, none, none⟩
    | _ => default
  live := [1]
  vl := ⟨some 1, some 1, 1, 1, 0⟩

/-- The process 1 has one page of heap, the others have nothing. -/
def heapVm : Vm :=
  bootVm.setProc 1 ⟨heapSpace,
    fun page => if page = 0x10000000 then some 0x300000 else none, 0x10000000, 0x10000001, some 1⟩

theorem heapSpace_regular : Regular heapSpace [1] where
  tracks := ⟨⟨⟨rfl, trivial⟩, ⟨rfl, trivial⟩, rfl, rfl⟩, by decide, by decide,
    by decide⟩
  laid := ⟨by
    intro r member
    rw [mem_singleton.mp member]
    exact ⟨by decide, by decide, by decide⟩, by decide⟩
  count := rfl
  total := rfl
  device := rfl

theorem heapVm_accounts : HasAccounts heapVm := by
  refine ⟨fun q => if q = 1 then [1] else [], fun q => ?_, fun q => ?_⟩
  · by_cases self : q = 1
    · subst self
      exact heapSpace_regular
    · rw [if_neg self, heapVm, setProc_other self]
      exact Regular.initial
  by_cases self : q = 1
  · subst self
    refine ⟨by decide, by decide, by decide, by decide, by decide, ?_⟩
    rintro page ⟨i, bound, place⟩
    have first : i = 0 := Nat.lt_one_iff.mp bound
    subst first
    rw [place]
    decide
  · unfold HeapOk
    rw [if_neg self, heapVm, setProc_other self]
    rfl

/-- A test that is enough for `Harmless`, for a brk of a process that has its
region. -/
def heapCheck (v : Vm) : Call → Bool
  | .mmap .. => true
  | .munmap .. => false
  | .brk pid newBrk _ grants =>
    let proc := lazyBrk (v.procs pid)
    proc.heapRegion.isSome && (alignUp newBrk == alignUp proc.brkCurrent ||
        (decide (alignUp proc.brkCurrent < alignUp newBrk) &&
          (decide (grants.length < (alignUp newBrk - alignUp proc.brkCurrent) / pageSize) &&
            (List.range grants.length).all fun i =>
              (lookup v pid (pageAt (alignUp proc.brkCurrent) i)).isNone)))

theorem heapCheck_sound {call : Call} (passed : heapCheck v call = true) : Harmless v call := by
  cases call with
  | mmap => trivial
  | munmap => cases passed
  | brk =>
    simp only [heapCheck, Bool.and_eq_true, Bool.or_eq_true, beq_iff_eq,
      decide_eq_true_eq, List.all_eq_true, mem_range,
      isNone_iff_eq_none] at passed
    obtain ⟨region, moves⟩ := passed
    obtain ⟨hr, held⟩ := isSome_iff_exists.mp region
    refine .inr (.inr ⟨hr, held, ?_⟩)
    rcases moves with same | ⟨larger, short, unused⟩
    · exact .inr (.inr (.inr (.inl same)))
    · exact .inr (.inr (.inr (.inr ⟨larger, .inr ⟨short, unused⟩⟩)))

/-- The break moves inside its page, a region is made, and the heap cannot grow
for lack of memory. -/
def outOfFrames : List Call :=
  [.brk 1 0x10000800 none [], .mmap 1 0 1 (some 2) [0x200000], .brk 1 0x10003000 none [0x201000]]

theorem brk_accounting_outOfFrames :
    ∃ v', Steps (Guarded UserMem.step Harmless) heapVm outOfFrames v' ∧
      (v'.procs 1).brkCurrent = 0x10000800 ∧ (v'.procs 1).space.vl = ⟨some 1, some 2, 2, 2, 0⟩ ∧
      lookup v' 1 0x10001000 = none ∧ ∃ ids, Accounted v' ids := by
  have followed : (followRun (checked exec fun v call => endsCheck v call && heapCheck v call)
      heapVm outOfFrames).map
        (fun v => ((v.procs 1).brkCurrent, (v.procs 1).space.vl, lookup v 1 0x10001000)) =
      some (0x10000800, ⟨some 1, some 2, 2, 2, 0⟩, none) := by
    decide +kernel
  obtain ⟨v', steps, seen⟩ := Steps.guarded_of_followed (fun passed =>
    And.intro (endsCheck_sound (Bool.and_eq_true_iff.mp passed).1).1
      (heapCheck_sound (Bool.and_eq_true_iff.mp passed).2)) followed
  simp only [Prod.mk.injEq] at seen
  obtain ⟨current, list, gone⟩ := seen
  have run : Steps (Guarded UserMem.step Harmless) heapVm outOfFrames v' :=
    steps.mono fun _ _ _ taken => ⟨⟨taken.1, taken.2.1⟩, taken.2.2⟩
  exact ⟨v', run, current, list, gone, (brk_accounting heapVm_accounts run).1⟩

/-- The first brk is a query. -/
def firstQuery : List Call := [.brk 1 0 (some 1) []]

/-- The first brk asks for one page. -/
def firstPage : List Call := [.brk 1 0x10001000 (some 1) [0x200000]]

/-- After the query there is an empty region; after the growth the total of the
list is short of a page; and a brk that fails for lack of memory leaves a region
behind. -/
theorem brk_accounting_firstUse :
    (∃ v', Steps UserMem.step bootVm firstQuery v' ∧ ∀ ids, ¬ Accounted v' ids) ∧
    (∃ v', Steps UserMem.step bootVm firstPage v' ∧ ∀ ids, ¬ Accounted v' ids) ∧
    ∃ v', sysBrk bootVm 1 0x10001000 (some 1) [] = some (v', -1) ∧ ¬ Unharmed bootVm v' 1 := by
  have query : (exec bootVm (.brk 1 0 (some 1) [])).map (fun v =>
      ((v.procs 1).space.vl, ((v.procs 1).space.nodes 1).pages)) =
      some (⟨some 1, some 1, 1, 0, 0⟩, 0) := by
    decide +kernel
  have grown : (exec bootVm (.brk 1 0x10001000 (some 1) [0x200000])).map
      (fun v => ((v.procs 1).space.vl, ((v.procs 1).space.nodes 1).pages)) =
      some (⟨some 1, some 1, 1, 0, 0⟩, 1) := by
    decide +kernel
  have failed : (sysBrk bootVm 1 0x10001000 (some 1) []).map (fun out =>
      ((out.1.procs 1).space.vl, out.2)) =
      some (⟨some 1, some 1, 1, 0, 0⟩, -1) := by
    decide +kernel
  -- the node at the head of a regular list is a region of it
  have first : ∀ {v : Vm} {ids : Nat → List Nat}, Accounted v ids →
      (v.procs 1).space.vl = ⟨some 1, some 1, 1, 0, 0⟩ →
      0 < ((v.procs 1).space.nodes 1).pages ∧ ((v.procs 1).space.nodes 1).pages ≤ 0 := by
    intro v ids accounted list
    have regular := accounted.regular 1
    have head := regular.tracks.links.head
    have total := regular.total
    rw [list] at head total
    cases whole : ids 1 with
    | nil =>
      rw [whole] at head
      cases head
    | cons p =>
      rw [whole] at head total
      obtain rfl : 1 = p := Option.some.inj head
      refine ⟨(regular.laid.sane _ (mem_map_of_mem (by rw [whole]; exact mem_cons_self))).least, ?_⟩
      rw [regionsAt_cons, map_cons, List.sum_cons] at total
      rw [bare_pages] at total
      exact Nat.le.intro total.symm
  obtain ⟨one, result, seen⟩ := map_eq_some_iff.mp query
  obtain ⟨two, result', seen'⟩ := map_eq_some_iff.mp grown
  obtain ⟨⟨three, ret⟩, result'', seen''⟩ := map_eq_some_iff.mp failed
  simp only [Prod.mk.injEq] at seen seen' seen''
  refine ⟨⟨one, .single ⟨result, by decide, fun p _ => not_mem_nil⟩,
    fun ids accounted => ?_⟩, ⟨two, .single ⟨result', by decide,
    fun p _ => not_mem_nil⟩, fun ids accounted => ?_⟩, three, ?_, fun unharmed => ?_⟩
  · have facts := first accounted seen.1
    omega
  · have facts := first accounted seen'.1
    omega
  · rw [result'', seen''.2]
  · have same := congrArg Space.vl unharmed.regions
    rw [seen''.1] at same
    exact absurd same (by decide)

end Runs

end MainDob.Kernel.UserMem
