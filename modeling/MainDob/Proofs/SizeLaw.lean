/-
Purpose: The size law of the kernel heap: what kmalloc and kpages_alloc return
  designates a block of at least the size asked for, inside the heap window and
  apart from every other live block, as long as the sums of the request stay
  below 2^32; and a request that does not, when granted, breaks the law.
Trusted boundary: none beyond MainDob.Kernel.Kheap
Main exports: slotBlock, blocks, size_law
-/
import MainDob.Proofs.HeapContract

namespace MainDob.Kernel.Kheap

open Lib
open Kpages (Kva Range pageSize wordSize kheapVbase kheapVlimit
  pagesOf kpagesAlloc)
open List Option

/-- The slot under a small object: as many bytes as the class of its page. -/
def slotBlock (s : State) (obj : Obj) : Obj where
  addr := obj.addr
  size := ((s.slabs.page (pageBase obj.addr)).map fun p =>
    classSize p.classIdx).getD 0

/-- The bytes of a large object: its pages without the header. -/
def Large.block (l : Large) : Obj where
  addr := l.addr
  size := l.pages * pageSize - largeHeaderSize

/-- The bytes of a range of pages. -/
def rangeBlock (r : Range) : Obj where
  addr := r.virt
  size := r.pages * pageSize

/-- The ranges that other users of the page allocator hold. -/
def foreignRanges (s : State) : List Range :=
  s.kva.live.filter fun r => !s.owns r

/-- The blocks that somebody holds: slots, large objects, and ranges of
pages. -/
def blocks (s : State) : List Obj :=
  s.live.map (slotBlock s) ++ s.large.map Large.block ++ (foreignRanges s).map rangeBlock

/-- A block lies wholly inside the kernel heap window. -/
def InWindow (block : Obj) : Prop :=
  kheapVbase ≤ block.addr ∧ block.addr + block.size ≤ kheapVlimit

/-- Every result that is still held designates a block of at least the size
asked for (a range has the pages asked for in its record), inside the window,
and no two blocks share a byte. -/
structure SizeLaw (s : State) : Prop where
  small : ∀ obj ∈ s.live, obj.size ≤ (slotBlock s obj).size
  large : ∀ l ∈ s.large, l.size ≤ l.block.size
  inside : ∀ block ∈ blocks s, InWindow block
  disjoint : (blocks s).Pairwise Apart

section Window

variable {kva : Kva} {r : Range} {s s' : State} {label : Label}

theorem live_window (inv : Kpages.Inv kva) (held : r ∈ kva.live) : InWindow (rangeBlock r) := by
  obtain ⟨low, aligned, _⟩ := live_placed inv held
  obtain ⟨n, tiled⟩ := inv.tiled
  have fits : Kpages.Fits r :=
    { some := inv.live r held
      below := fun page mine => (tiled.below (by
        refine mem_append_left _ (mem_append_left _ ?_)
        refine mem_append_left _ ?_
        exact mem_flatMap.mpr ⟨r, held, mine⟩)).2.2 }
  have close := fits.end_lt
  have limit : pageSize ∣ kheapVlimit := by decide
  have ends : pageSize ∣ r.virt + r.pages * pageSize := Nat.dvd_add aligned (Nat.dvd_mul_left _ _)
  refine ⟨low, ?_⟩
  simp only [rangeBlock]
  -- both ends are multiples of the page size, less than a page apart
  obtain ⟨_, upTo⟩ := ends
  obtain ⟨_, bound⟩ := limit
  rw [upTo, bound] at close ⊢
  exact Nat.mul_le_mul_left _ (Nat.le_of_lt_succ (Nat.lt_of_mul_lt_mul_left close))

variable {obj : Obj}

theorem HeapOk.slotBlock_eq (ok : HeapOk s) (held : obj ∈ s.live) :
    ∃ cls, SlotOf s.slabs cls obj.addr ∧
    obj.size ≤ classSize cls ∧ slotBlock s obj = ⟨obj.addr, classSize cls⟩ := by
  obtain ⟨cls, slot, fits⟩ := ok.classed.live obj held
  refine ⟨cls, slot, fits, ?_⟩
  obtain ⟨_, _, _, was, rfl, below, _, same⟩ := slot
  unfold slotBlock
  rw [same, ok.slabs.pageBase_slot was below, was]
  rfl

theorem HeapOk.slot_inside (ok : HeapOk s) (held : obj ∈ s.live) :
    ∃ virt, ⟨virt, 1⟩ ∈ s.kva.live ∧ (s.slabs.page virt).isSome ∧ virt ≤ (slotBlock s obj).addr ∧
      (slotBlock s obj).addr + (slotBlock s obj).size ≤ virt + pageSize := by
  obtain ⟨cls, ⟨virt, p, _, was, its, below, _, same⟩, _, block⟩ := ok.slotBlock_eq held
  have inside := (ok.slabs.ok virt p was).slot_in_page below virt
  rw [its] at inside
  refine ⟨virt, ?_, by rw [was]; rfl, ?_, ?_⟩
  · exact ok.mapped.slab virt cls (classOf_eq_some.mpr ⟨p, was, its⟩)
  · rw [block, same]
    exact (Nat.le_add_right ..).trans inside.1
  · rw [block, same]
    exact inside.2

theorem HeapOk.large_inside (ok : HeapOk s) {l : Large} (held : l ∈ s.large) :
    l.virt ≤ l.block.addr ∧ l.block.addr + l.block.size = l.virt + l.pages * pageSize := by
  have positive := ok.mapped.inv.live _ (ok.mapped.range l held)
  have room : largeHeaderSize ≤ l.pages * pageSize :=
    (show largeHeaderSize ≤ pageSize by decide).trans (Nat.le_mul_of_pos_left _ positive)
  simp only [Large.block, Large.addr]
  omega

/-- A block lies inside a live range that starts at the page `virt`. -/
def Under (s : State) (block : Obj) (r : Range) : Prop :=
  r ∈ s.kva.live ∧ r.virt ≤ block.addr ∧ block.addr + block.size ≤ r.virt + r.pages * pageSize

theorem Under.window (ok : HeapOk s) {block : Obj} (under : Under s block r) : InWindow block := by
  obtain ⟨held, starts, ends⟩ := under
  obtain ⟨low, high⟩ := live_window ok.mapped.inv held
  simp only [rangeBlock, InWindow] at *
  omega

theorem Under.apart (ok : HeapOk s) {one two : Obj} {r q : Range} (first : Under s one r)
    (second : Under s two q) (different : r ≠ q) : Apart one two := by
  obtain ⟨heldOne, startOne, endOne⟩ := first
  obtain ⟨heldTwo, startTwo, endTwo⟩ := second
  have order := ok.ranges heldOne heldTwo different
  simp only [Apart]
  omega

theorem HeapOk.slot_under (ok : HeapOk s) (held : obj ∈ s.live) :
    ∃ virt, Under s (slotBlock s obj) ⟨virt, 1⟩ ∧ (s.slabs.page virt).isSome := by
  obtain ⟨virt, range, slab, low, high⟩ := ok.slot_inside held
  exact ⟨virt, ⟨range, low, by simpa using high⟩, slab⟩

theorem HeapOk.large_under (ok : HeapOk s) {l : Large} (held : l ∈ s.large) :
    Under s l.block ⟨l.virt, l.pages⟩ :=
  ⟨ok.mapped.range l held, (ok.large_inside held).1, (ok.large_inside held).2.le⟩

theorem foreign_under (held : r ∈ foreignRanges s) :
    Under s (rangeBlock r) r ∧ s.owns r = false := by
  obtain ⟨live, other⟩ := mem_filter.mp held
  exact ⟨⟨live, le_rfl, le_rfl⟩, by simpa using other⟩

/-! ### The law in a heap in order -/

section

variable (ok : HeapOk s)
include ok

theorem HeapOk.blocks_inside : ∀ block ∈ blocks s, InWindow block := by
  intro block inside
  rcases mem_append.mp inside with inside | foreign
  · rcases mem_append.mp inside with small | large
    · obtain ⟨_, held, rfl⟩ := mem_map.mp small
      obtain ⟨_, under, _⟩ := ok.slot_under held
      exact under.window ok
    · obtain ⟨_, held, rfl⟩ := mem_map.mp large
      exact (ok.large_under held).window ok
  · obtain ⟨_, held, rfl⟩ := mem_map.mp foreign
    exact (foreign_under held).1.window ok

theorem HeapOk.slots_disjoint : (s.live.map (slotBlock s)).Pairwise Apart := by
  have distinct := pairwise_map.mp (nodup_append.mp ok.placed.nodup).1
  refine pairwise_map.mpr (distinct.imp_of_mem ?_)
  intro one two first second different
  obtain ⟨_, slotOne, _, blockOne⟩ := ok.slotBlock_eq first
  obtain ⟨_, slotTwo, _, blockTwo⟩ := ok.slotBlock_eq second
  rw [blockOne, blockTwo]
  exact ok.slabs.slots_apart slotOne slotTwo le_rfl le_rfl different

theorem HeapOk.larges_disjoint : (s.large.map Large.block).Pairwise Apart := by
  have distinct := pairwise_map.mp ok.mapped.nodup
  refine pairwise_map.mpr (distinct.imp_of_mem ?_)
  intro one two first second different
  exact (ok.large_under first).apart ok (ok.large_under second) fun same =>
    different (congrArg Range.virt same)

theorem HeapOk.foreign_disjoint : ((foreignRanges s).map rangeBlock).Pairwise Apart := by
  have distinct : (foreignRanges s).Pairwise fun a b =>
      (pagesOf a).Disjoint (pagesOf b) :=
    ok.mapped.inv.conserved.disjoint.filter _
  refine pairwise_map.mpr (distinct.imp_of_mem ?_)
  intro one two first second disjoint
  have positive := fun {r} (held : r ∈ foreignRanges s) =>
    ok.mapped.inv.live r (mem_filter.mp held).1
  refine (foreign_under first).1.apart ok (foreign_under second).1 ?_
  rintro rfl
  exact starts_apart (positive first) (positive first) disjoint rfl

theorem HeapOk.blocks_disjoint : (blocks s).Pairwise Apart := by
  refine pairwise_append.mpr ⟨pairwise_append.mpr ⟨?_, ?_, ?_⟩, ok.foreign_disjoint, ?_⟩
  · exact ok.slots_disjoint
  · exact ok.larges_disjoint
  · rintro _ small _ large
    obtain ⟨_, held, rfl⟩ := mem_map.mp small
    obtain ⟨l, heldLarge, rfl⟩ := mem_map.mp large
    obtain ⟨virt, under, slab⟩ := ok.slot_under held
    refine under.apart ok (ok.large_under heldLarge) fun same => ?_
    have none := classOf_eq_none.mp (ok.mapped.apart l heldLarge)
    rw [← show virt = l.virt from congrArg Range.virt same] at none
    rw [none] at slab
    cases slab
  · rintro _ own _ foreign
    obtain ⟨r, heldForeign, rfl⟩ := mem_map.mp foreign
    obtain ⟨range, unowned⟩ := foreign_under heldForeign
    rw [State.owns, Bool.or_eq_false_iff] at unowned
    rcases mem_append.mp own with small | large
    · obtain ⟨obj, held, rfl⟩ := mem_map.mp small
      obtain ⟨virt, under, slab⟩ := ok.slot_under held
      refine under.apart ok range fun same => ?_
      rw [← same, slab] at unowned
      exact absurd unowned.1 (by simp)
    · obtain ⟨l, held, rfl⟩ := mem_map.mp large
      refine (ok.large_under held).apart ok range fun same => ?_
      rw [← same, ok.largeAt_eq held] at unowned
      exact absurd unowned.2 (by simp)

theorem HeapOk.sizeLaw : SizeLaw s where
  small obj held := by
    obtain ⟨_, _, fits, block⟩ := ok.slotBlock_eq held
    rw [block]
    exact fits
  large l held := by
    have room := ok.mapped.room l held
    simp only [Large.block, Large.addr] at *
    omega
  inside := ok.blocks_inside
  disjoint := ok.blocks_disjoint

end

/-! ### Requests whose sums wrap -/

variable {count : Nat}

theorem takeVirtualRange_wraps (inv : Kpages.Inv kva)
    (wraps : wordSize ≤ kva.pool.bump + count * pageSize)
    (granted : (Kpages.takeVirtualRange kva.pool count).1 ≠ 0) :
    (Kpages.takeVirtualRange kva.pool count).1 = kva.pool.bump := by
  obtain ⟨n, tiled⟩ := inv.tiled
  have limit := tiled.limit
  have sizes : kheapVlimit + pageSize + (kheapVlimit - kheapVbase) ≤ wordSize := by decide
  have word := Kpages.window_lt_word
  rcases Kpages.takeVirtualRange_cases kva.pool count with
    ⟨_, _, rfl, _⟩ | ⟨_, _, some, _⟩ | ⟨_, result⟩
  · omega
  · rw [tiled.takeMulti_none (by omega)] at some
    cases some
  rw [result] at granted ⊢
  split at granted
  · exact absurd rfl granted
  · rename_i below
    rw [if_neg below]

theorem live_below_bump (inv : Kpages.Inv kva) (held : r ∈ kva.live) : r.virt < kva.pool.bump := by
  obtain ⟨n, tiled⟩ := inv.tiled
  have mine : r.virt ∈ pagesOf r := Kpages.mem_pagesOf.mpr ⟨0, inv.live r held, by simp⟩
  refine (tiled.below ?_).2.1
  refine mem_append_left _ (mem_append_left _ ?_)
  exact mem_append_left _ (mem_flatMap.mpr ⟨r, held, mine⟩)

theorem HeapOk.bump_free (ok : HeapOk s) (count : Nat) :
    s.owns ⟨s.kva.pool.bump, count⟩ = false := by
  have inv := ok.mapped.inv
  rw [State.owns, Bool.or_eq_false_iff]
  constructor
  · rw [Bool.eq_false_iff]
    intro slab
    obtain ⟨p, was⟩ := isSome_iff_exists.mp slab
    have held := ok.mapped.slab _ _ (classOf_eq_some.mpr ⟨p, was, rfl⟩)
    exact lt_irrefl _ (live_below_bump inv held)
  · rw [Bool.eq_false_iff]
    intro large
    obtain ⟨l, found⟩ := isSome_iff_exists.mp large
    obtain ⟨held, same⟩ := largeAt_some found
    have below := live_below_bump inv (ok.mapped.range l held)
    exact lt_irrefl _ (same ▸ below)

theorem not_inWindow {block : Obj} (past : wordSize ≤ block.addr + block.size) :
    ¬ InWindow block := by
  rintro ⟨_, ends⟩
  have word := Kpages.window_lt_word
  omega

theorem largePages_wraps {size : Nat} (inWord : size < wordSize)
    (wraps : wordSize < size + largeHeaderSize) : largePages size = 1 := by
  simp only [largePages, largeHeaderSize, pageSize, wordSize] at *
  omega

variable {backed : Bool}

theorem kpagesAlloc_granted (granted : (kpagesAlloc kva count backed).1 ≠ 0) :
    (kpagesAlloc kva count backed).1 = (Kpages.takeVirtualRange kva.pool count).1 := by
  unfold kpagesAlloc at granted ⊢
  split at granted
  · exact absurd rfl granted
  rename_i some
  rw [if_neg some]
  dsimp only at granted ⊢
  split at granted
  · exact absurd rfl granted
  rename_i taken
  rw [if_neg taken]
  split at granted
  · rename_i filled
    rw [if_pos filled]
  · exact absurd rfl granted

theorem kpagesAlloc_refused (refused : (kpagesAlloc kva count backed).1 = 0) :
    (kpagesAlloc kva count backed).2.live = kva.live := by
  unfold kpagesAlloc at refused ⊢
  split
  · rfl
  rename_i some
  rw [if_neg some] at refused
  dsimp only at refused ⊢
  split
  · rfl
  rename_i taken
  rw [if_neg taken] at refused
  split
  · rename_i filled
    rw [if_pos filled] at refused
    exact absurd refused taken
  · rfl

/-- A step hands out a block. -/
def Granted (s s' : State) : Prop :=
  (∃ obj, s'.live = obj :: s.live) ∨ (∃ l, s'.large = l :: s.large) ∨
    ∃ r, s'.kva.live = r :: s.kva.live

theorem not_granted (live : s'.live = s.live) (large : s'.large = s.large)
    (ranges : s'.kva.live = s.kva.live) : ¬ Granted s s' := by
  rintro (⟨_, grown⟩ | ⟨_, grown⟩ | ⟨_, grown⟩)
  · exact cons_ne_self _ _ (grown.symm.trans live)
  · exact cons_ne_self _ _ (grown.symm.trans large)
  · exact cons_ne_self _ _ (grown.symm.trans ranges)

theorem HeapOk.large_breaks (ok : HeapOk s) {size : Nat} (taken : exec s
    (.kmallocLarge size backed) = some s') (granted : Granted s s') (law : SizeLaw s') :
    SizeFits (.kmallocLarge size backed) ∧ RangeFits s (.kmallocLarge size backed) := by
  simp only [exec] at taken
  split at taken
  · cases taken
  rename_i valid
  split at taken
  · rename_i refused
    cases taken
    exact absurd granted (not_granted rfl rfl (kpagesAlloc_refused refused))
  rename_i found
  cases taken
  have inWord : size < wordSize := by
    by_contra past
    exact valid (.inr (Nat.le_of_not_lt past))
  have room := law.large _ (mem_cons_self ..)
  have inside := law.inside _ (mem_append_left _ (mem_append_right _
    (mem_map_of_mem (mem_cons_self ..))))
  constructor
  · by_contra wraps
    simp only [SizeFits, not_le] at wraps
    rw [Large.block, largePages_wraps inWord wraps] at room
    simp only [largeHeaderSize, pageSize, wordSize] at wraps room
    omega
  · by_contra wraps
    simp only [RangeFits, not_lt] at wraps
    have at_ := takeVirtualRange_wraps ok.mapped.inv wraps (kpagesAlloc_granted found ▸ found)
    refine not_inWindow ?_ inside
    simp only [Large.block, Large.addr]
    rw [kpagesAlloc_granted found, at_]
    omega

theorem HeapOk.range_breaks (ok : HeapOk s) (taken : exec s (.other (.take count)) = some s')
    (granted : Granted s s') (law : SizeLaw s') : RangeFits s (.other (.take count)) := by
  simp only [exec, heldOf, all_none, if_true, map_eq_some_iff, Kpages.exec] at taken
  obtain ⟨kva', made, rfl⟩ := taken
  split at made
  · cases made
  split at made
  · cases made
    exact absurd granted (not_granted rfl rfl rfl)
  rename_i found
  cases made
  by_contra wraps
  simp only [RangeFits, Kpages.NoWrap, not_lt] at wraps
  have at_ := takeVirtualRange_wraps ok.mapped.inv wraps found
  have foreign : (⟨s.kva.pool.bump, count⟩ : Range) ∈ foreignRanges { s with kva :=
        { s.kva with
          pool := (Kpages.takeVirtualRange s.kva.pool count).2
          live := ⟨(Kpages.takeVirtualRange s.kva.pool count).1, count⟩ :: s.kva.live } } := by
    refine mem_filter.mpr ⟨?_, ?_⟩
    · rw [at_]
      exact mem_cons_self ..
    · have free := ok.bump_free count
      simpa [State.owns, State.largeAt] using free
  refine not_inWindow ?_ (law.inside _ (mem_append_right _ (mem_map_of_mem foreign)))
  exact wraps

end Window

section Runs

variable {s : State}

/-- In every run whose requests fit and whose frees are seen, all that is held
obeys the size law.  After such a run, a request that is granted keeps the law
exactly when its sums do not wrap. -/
theorem size_law {labels : List Label} (run : Steps (Guarded step Fitting) initial labels s) :
    SizeLaw s ∧ ∀ label s', step s label s' →
    FreesSeen s label → Granted s s' → (SizeLaw s' ↔ SizeFits label ∧ RangeFits s label) := by
  have ok := HeapOk.of_run run
  refine ⟨ok.sizeLaw, fun label s' taken seen granted => ⟨fun law => ?_, ?_⟩⟩
  · cases label with
    | kmallocLarge => exact ok.large_breaks taken.2 granted law
    | other action =>
      refine ⟨trivial, ?_⟩
      cases action with
      | take => exact ok.range_breaks taken.2 granted law
      | unback | free | trimRound => trivial
    | _ => exact ⟨trivial, trivial⟩
  · rintro ⟨fits, range⟩
    exact (ok.step taken fits range seen).sizeLaw

/-- Small objects, a large one and a range of another user. -/
def requests : List Label :=
  [.kmalloc 0 16, .batch 0 16, .create 0 16 true,
    .publish 0 16 kheapVbase, .kmallocLarge 3000 true, .other (.take 3)]

theorem size_law_requests : ∃ s, Steps (Guarded step Fitting) initial requests s ∧
      blocks s = [⟨slot16 0, 16⟩, ⟨kheapVbase + 4104, 4088⟩,
        ⟨kheapVbase + 8192, 12288⟩] ∧ SizeLaw s := by
  have followed : (followRun (calmly (fitsBy heldSmall)) initial requests).map blocks =
      some [⟨slot16 0, 16⟩, ⟨kheapVbase + 4104, 4088⟩, ⟨kheapVbase + 8192, 12288⟩] := by
    decide +kernel
  have sound : ∀ {s label}, fitsBy heldSmall s label = true → Fitting s label := fun passed =>
    ⟨(fitsBy_live passed).1, (fitsBy_live passed).2.1, (fitsBy_live passed).2.2.seen⟩
  obtain ⟨s, steps, held⟩ := runs_of_followed sound followed
  exact ⟨s, steps, held, (size_law steps).1⟩

/-- `kmalloc(0xFFFFFFFF)` returns a block of less than a page. -/
theorem size_law_wraps :
    ¬ ∀ labels s, Steps (Guarded step FreesSeen) initial labels s → SizeLaw s := by
  intro claimed
  obtain ⟨s, steps, held⟩ := wrapped_request
  have room := (claimed _ s (steps.mono fun _ _ _ next => ⟨next.1, next.2.seen⟩)).large ⟨kheapVbase, 1, 0xFFFFFFFF⟩ (by rw [held]; exact .head _)
  revert room
  decide

end Runs

end MainDob.Kernel.Kheap
