/-
Purpose: The kernel heap over all runs: every taken slot is in one place, with a caller, in a
  cache or in a call; slab pages and large objects lie in ranges of their own.
Main exports: HeapOk, slab_invariant, frees_caught
-/
import Mathlib.Data.List.Pairwise
import MainDob.Lib.Counting
import MainDob.Proofs.KernelRanges
import MainDob.Proofs.SlabLists

namespace MainDob.Kernel.Kheap

open Function (update)
open Lib
open Kpages (Kva Range pageSize wordSize pagesOf kpagesAlloc
  kpagesFree)
open List Option

/-! ### The class of a page -/

/-- The class of the slab page at an address. -/
def classOf (s : Slabs) (virt : Nat) : Option Nat :=
  (s.page virt).map SlabPage.classIdx

variable {virt cls : Nat}

theorem classOf_eq_some {s : Slabs} :
    classOf s virt = some cls ↔ ∃ p, s.page virt = some p ∧ p.classIdx = cls :=
  map_eq_some_iff

theorem classOf_eq_none {s : Slabs} : classOf s virt = none ↔ s.page virt = none := map_eq_none_iff

theorem setPage_classOf {s : Slabs} {p : SlabPage} (was : s.page virt = some p) (q : SlabPage)
    (same : q.classIdx = p.classIdx) : classOf (s.setPage virt q) = classOf s := by
  funext other
  by_cases here : other = virt
  · subst here
    simp [classOf, Slabs.setPage, was, same]
  · simp [classOf, Slabs.setPage, here]

theorem partialPush_classOf (s : Slabs) (cls virt : Nat) :
    classOf (partialPush s cls virt) = classOf s := by
  unfold partialPush
  cases was : s.page virt with
  | none => rfl
  | some p => exact setPage_classOf was { p with inPartial := true } rfl

theorem partialRemove_classOf (s : Slabs) (cls virt : Nat) :
    classOf (partialRemove s cls virt) = classOf s := by
  unfold partialRemove
  cases was : s.page virt with
  | none => rfl
  | some p =>
    dsimp only
    split
    · exact setPage_classOf was { p with inPartial := false } rfl
    · rfl

theorem pickCachedPage_classOf {s s' : Slabs} (picked : pickCachedPage s cls = some (virt, s')) :
    classOf s' = classOf s := by
  unfold pickCachedPage at picked
  split at picked
  · cases picked
    rfl
  · split at picked
    · cases picked
      exact partialPush_classOf _ _ _
    · cases picked

theorem claimOn_classOf (s : Slabs) (cls virt : Nat) :
    classOf (claimOn s cls virt).2 = classOf s := by
  unfold claimOn
  cases was : s.page virt with
  | none => rfl
  | some p =>
    have same : (claimFreeSlot p).2.classIdx = p.classIdx := by
      unfold claimFreeSlot
      split <;> rfl
    have written := setPage_classOf was { (claimFreeSlot p).2 with
      freeCount := countDown (claimFreeSlot p).2.freeCount } same
    dsimp only
    split
    · rw [partialRemove_classOf, written]
    · exact written

theorem claimBatch_classOf (cls times : Nat) :
    ∀ (s : Slabs) (batch : List Nat), classOf (claimBatch cls times s batch).2 = classOf s := by
  induction times with
  | zero => exact fun _ _ => rfl
  | succ _ ih =>
    intro s batch
    rw [claimBatch]
    cases picked : pickCachedPage s cls with
    | none => rfl
    | some result =>
      rw [ih, claimOn_classOf, pickCachedPage_classOf picked]

theorem releaseSlotChecked_classOf (s : Slabs) (addr : Nat) :
    classOf (releaseSlotChecked s addr).2 = classOf s := by
  unfold releaseSlotChecked
  cases was : s.page (pageBase addr) with
  | none => rfl
  | some p =>
    dsimp only
    split
    · rfl
    split
    · generalize slotDistance (pageBase addr) p addr / classSize p.classIdx = idx
      have written := setPage_classOf was { p with
        bitmap := clearSlot p.bitmap idx
        freeCount := countUp p.freeCount } rfl
      have pushed : classOf (if p.freeCount = 0 then
          partialPush (s.setPage (pageBase addr) { p with
            bitmap := clearSlot p.bitmap idx
            freeCount := countUp p.freeCount }) p.classIdx (pageBase addr)
          else s.setPage (pageBase addr) { p with
            bitmap := clearSlot p.bitmap idx
            freeCount := countUp p.freeCount }) = classOf s := by
        split
        · rw [partialPush_classOf, written]
        · exact written
      unfold releaseSlot
      dsimp only
      generalize (if p.freeCount = 0 then _ else _) = next at pushed ⊢
      have off := (partialRemove_classOf next p.classIdx (pageBase addr)).trans pushed
      split
      · split <;> exact off
      · exact pushed
    · rfl

theorem trimClass_classOf (cls times : Nat) :
    ∀ (s : Slabs) (chain : List Nat), classOf (trimClass cls times (s, chain)).1 = classOf s := by
  induction times with
  | zero => exact fun _ _ => rfl
  | succ _ ih =>
    intro s chain
    rw [trimClass]
    split
    · split
      · exact ih _ _
      · rfl
    · rfl

theorem kheapEmptyTrim_classOf (s : Slabs) : classOf (kheapEmptyTrim s).1 = classOf s := by
  have walk : ∀ (classes : List Nat) (result : Slabs × List Nat),
      classOf (classes.foldl (fun result cls =>
        trimClass cls (result.1.emptyN cls) result) result).1 =
        classOf result.1 := by
    intro classes
    induction classes with
    | nil => exact fun _ => rfl
    | cons cls _ ih =>
      intro result
      exact (ih _).trans (trimClass_classOf cls _ _ _)
  exact walk (List.range numClasses) (s, [])

/-! ### The invariant -/

/-- A class and a size that fits it. -/
def Suits (cls size : Nat) : Prop := cls < numClasses ∧ size ≤ classSize cls

/-- What a call between two of its sections relies on. -/
def TaskOk (slabs : Slabs) : Task → Prop
  | .missed cls size => Suits cls size
  | .creating cls size => Suits cls size
  | .created cls size virt => Suits cls size ∧ classOf slabs virt = some cls
  | .stocking cls size batch => Suits cls size ∧ ∀ a ∈ batch, SlotOf slabs cls a
  | .surplus _ => True
  | .chain _ => True

/-- What callers, caches and calls hold has the class it should have. -/
structure Classed (slabs : Slabs) (s : State) : Prop where
  live : ∀ obj ∈ s.live, ∃ cls, SlotOf slabs cls obj.addr ∧ obj.size ≤ classSize cls
  caches : ∀ i cache, s.caches[i]? = some cache → ∀ a ∈ cache, SlotOf slabs (i % numClasses) a
  tasks : ∀ task ∈ s.tasks, TaskOk slabs task
  length : s.caches.length = maxCpus * numClasses

/-- The slots out of the slabs: with callers, in caches and in calls. -/
def outSlots (s : State) : List Nat := s.live.map Obj.addr ++ idleSlots s

/-- The taken slots are those that are out, each in one place. -/
structure Placed (slabs : Slabs) (out : List Nat) : Prop where
  nodup : out.Nodup
  mem : ∀ a, a ∈ out ↔ ∃ cls, SlotOf slabs cls a

/-- Slab pages and large objects lie in ranges of the page allocator, each in
one of its own. -/
structure Mapped (kva : Kva) (slabs : Slabs) (large : List Large) : Prop where
  inv : Kpages.Inv kva
  slab : ∀ virt cls, classOf slabs virt = some cls → ⟨virt, 1⟩ ∈ kva.live
  range : ∀ l ∈ large, ⟨l.virt, l.pages⟩ ∈ kva.live
  apart : ∀ l ∈ large, classOf slabs l.virt = none
  room : ∀ l ∈ large, l.addr + l.size ≤ l.virt + l.pages * pageSize
  nodup : (large.map Large.virt).Nodup

structure HeapOk (s : State) : Prop where
  mapped : Mapped s.kva s.slabs s.large
  slabs : SlabsOk s.slabs (· ∈ handPages s)
  hands : (handPages s).Nodup
  placed : Placed s.slabs (outSlots s)
  classed : Classed s.slabs s

variable {slabs' : Slabs} {task : Task}

theorem TaskOk.mono {slabs : Slabs} (ok : TaskOk slabs task)
    (slots : ∀ c, ∀ a ∈ task.slots, SlotOf slabs c a → SlotOf slabs' c a)
    (pages : ∀ virt ∈ task.pages, classOf slabs' virt = classOf slabs virt) :
    TaskOk slabs' task := by
  cases task with
  | missed | creating => exact ok
  | created _ _ virt => exact ⟨ok.1, (pages virt (mem_singleton_self _)).trans ok.2⟩
  | stocking cls => exact ⟨ok.1, fun a inside => slots cls a inside (ok.2 a inside)⟩
  | surplus | chain => trivial

theorem Classed.mono {slabs : Slabs} {s : State} (classed : Classed slabs s)
    (slots : ∀ c, ∀ a ∈ outSlots s, SlotOf slabs c a → SlotOf slabs' c a)
    (pages : ∀ virt ∈ handPages s, classOf slabs' virt = classOf slabs virt) :
    Classed slabs' s where
  live obj inside := by
    obtain ⟨cls, slot, fits⟩ := classed.live obj inside
    refine ⟨cls, slots cls obj.addr ?_ slot, fits⟩
    exact mem_append_left _ (mem_map_of_mem inside)
  caches i cache found a inside := by
    refine slots _ a ?_ (classed.caches i cache found a inside)
    refine mem_append_right _ (mem_append_left _ ?_)
    exact mem_flatten.mpr ⟨cache, mem_of_getElem? found, inside⟩
  tasks task inside := by
    refine (classed.tasks task inside).mono ?_ ?_
    · intro c a mine
      refine slots c a ?_
      refine mem_append_right _ (mem_append_right _ ?_)
      exact mem_flatMap.mpr ⟨task, inside, mine⟩
    · intro virt mine
      exact pages virt (mem_flatMap.mpr ⟨task, inside, mine⟩)
  length := classed.length

variable {out : List Nat}

section

variable {slabs : Slabs}

theorem Placed.perm {out' : List Nat}
    (placed : Placed slabs out) (same : out'.Perm out) : Placed slabs out' where
  nodup := same.nodup_iff.mpr placed.nodup
  mem a := same.mem_iff.trans (placed.mem a)

theorem Placed.same (placed : Placed slabs out)
    (slots : ∀ c a, SlotOf slabs' c a ↔ SlotOf slabs c a) : Placed slabs' out where
  nodup := placed.nodup
  mem a := (placed.mem a).trans (exists_congr fun c => (slots c a).symm)

theorem Placed.claim {new : List Nat} (placed : Placed slabs out) (cls : Nat) (distinct : new.Nodup)
    (free : ∀ a ∈ new, ∀ c, ¬ SlotOf slabs c a) (slots : ∀ c a, SlotOf slabs' c a ↔
    SlotOf slabs c a ∨ (c = cls ∧ a ∈ new)) : Placed slabs' (new ++ out) where
  nodup := by
    refine nodup_append'.mpr ⟨distinct, placed.nodup, ?_⟩
    intro a fresh old
    obtain ⟨c, slot⟩ := (placed.mem a).mp old
    exact free a fresh c slot
  mem a := by
    rw [mem_append, placed.mem]
    constructor
    · rintro (fresh | ⟨c, slot⟩)
      · exact ⟨cls, (slots cls a).mpr (.inr ⟨rfl, fresh⟩)⟩
      · exact ⟨c, (slots c a).mpr (.inl slot)⟩
    · rintro ⟨c, slot⟩
      rcases (slots c a).mp slot with old | ⟨_, fresh⟩
      · exact .inr ⟨c, old⟩
      · exact .inl fresh

theorem Placed.release {addr : Nat} (placed : Placed slabs (addr :: out))
    (slots : ∀ c a, SlotOf slabs' c a ↔ SlotOf slabs c a ∧ a ≠ addr) : Placed slabs' out where
  nodup := (nodup_cons.mp placed.nodup).2
  mem a := by
    have absent := (nodup_cons.mp placed.nodup).1
    constructor
    · intro inside
      obtain ⟨c, slot⟩ := (placed.mem a).mp (mem_cons_of_mem _ inside)
      refine ⟨c, (slots c a).mpr ⟨slot, ?_⟩⟩
      rintro rfl
      exact absent inside
    · rintro ⟨c, slot⟩
      obtain ⟨old, apart⟩ := (slots c a).mp slot
      exact (mem_cons.mp ((placed.mem a).mpr ⟨c, old⟩)).resolve_left apart

end

theorem Mapped.congr {kva : Kva} {slabs : Slabs} {large : List Large}
    (mapped : Mapped kva slabs large) (same : classOf slabs' = classOf slabs) :
    Mapped kva slabs' large where
  inv := mapped.inv
  slab := by
    rw [same]
    exact mapped.slab
  range := mapped.range
  apart := by
    rw [same]
    exact mapped.apart
  room := mapped.room
  nodup := mapped.nodup

theorem SlabsOk.congr {s : Slabs} {hand hand' : Nat → Prop}
    (ok : SlabsOk s hand) (same : ∀ w, hand' w ↔ hand w) : SlabsOk s hand' := by
  cases (funext fun w => propext (same w) : hand' = hand)
  exact ok

/-! ### Ranges -/

section Ranges

variable {kva kva' : Kva} {r one two : Range}

theorem live_placed (inv : Kpages.Inv kva) (held : r ∈ kva.live) :
    Kpages.kheapVbase ≤ r.virt ∧ pageSize ∣ r.virt ∧ r.virt + r.pages * pageSize ≤ wordSize := by
  obtain ⟨n, tiled⟩ := inv.tiled
  have inside : ∀ page ∈ pagesOf r, page ∈ kva.live.flatMap pagesOf ++
      kva.lost ++ kva.pool.stack ++ kva.pool.multi.flatMap pagesOf := by
    intro page mine
    refine mem_append_left _ (mem_append_left _ ?_)
    exact mem_append_left _ (mem_flatMap.mpr ⟨r, held, mine⟩)
  have fits : Kpages.Fits r :=
    { some := inv.live r held, below := fun page mine => (tiled.below (inside page mine)).2.2 }
  have start := inside _ fits.start_mem
  obtain ⟨i, _, at_⟩ := Kpages.mem_pagesOf.mp (tiled.pages.symm.subset start)
  refine ⟨(tiled.below start).1, ?_, ?_⟩
  · rw [← at_]
    exact Nat.dvd_add (show pageSize ∣ Kpages.kheapVbase by decide) (Nat.dvd_mul_left _ _)
  · have high := fits.end_lt
    have word := Kpages.window_lt_word
    omega

theorem starts_apart (somePage : 0 < one.pages) (somePage' : 0 < two.pages)
    (disjoint : (pagesOf one).Disjoint (pagesOf two)) : one.virt ≠ two.virt := by
  intro same
  refine disjoint (Kpages.mem_pagesOf.mpr ⟨0, somePage, ?_⟩)
    (Kpages.mem_pagesOf.mpr ⟨0, somePage', rfl⟩)
  rw [same]

theorem live_disjoint (inv : Kpages.Inv kva) (first : one ∈ kva.live) (second : two ∈ kva.live)
    (different : one ≠ two) : (pagesOf one).Disjoint (pagesOf two) := by
  have : Std.Symm fun a b : Range => (pagesOf a).Disjoint (pagesOf b) :=
    ⟨fun _ _ apart => apart.symm⟩
  exact inv.conserved.disjoint.forall first second different

theorem fresh_start (inv : Kpages.Inv kva') (taken : kva'.live = r :: kva.live)
    (held : one ∈ kva.live) : one.virt ≠ r.virt := by
  have disjoint := inv.conserved.disjoint
  have positive := inv.live
  rw [taken] at disjoint positive
  exact starts_apart (positive one (mem_cons_of_mem _ held)) (positive r (mem_cons_self ..))
    ((pairwise_cons.mp disjoint).1 one held).symm

theorem ranges_ordered (alignedOne : pageSize ∣ one.virt) (alignedTwo : pageSize ∣ two.virt)
    (somePage : 0 < one.pages) (somePage' : 0 < two.pages)
    (disjoint : (pagesOf one).Disjoint (pagesOf two)) :
    one.virt + one.pages * pageSize ≤ two.virt ∨ two.virt + two.pages * pageSize ≤ one.virt := by
  have later : ∀ {a b : Range}, pageSize ∣ a.virt → pageSize ∣ b.virt →
      0 < b.pages → (pagesOf a).Disjoint (pagesOf b) → a.virt ≤ b.virt →
      a.virt + a.pages * pageSize ≤ b.virt := by
    intro a b alignedA alignedB someB apart order
    obtain ⟨i, gap⟩ := Nat.dvd_sub alignedB alignedA
    have at_ : b.virt = a.virt + i * pageSize := by
      rw [mul_comm]
      omega
    by_contra overlap
    refine apart (Kpages.mem_pagesOf.mpr ⟨i, ?_, at_.symm⟩)
      (Kpages.mem_pagesOf.mpr ⟨0, someB, by simp⟩)
    exact Nat.lt_of_mul_lt_mul_right (a := pageSize) (by omega)
  rcases le_total one.virt two.virt with order | order
  · exact .inl (later alignedOne alignedTwo somePage' disjoint order)
  · exact .inr (later alignedTwo alignedOne somePage disjoint.symm order)

end Ranges

variable {size : Nat} {l : Large}

section Mapping

variable {kva kva' : Kva} {slabs : Slabs} {large : List Large}

section

variable (mapped : Mapped kva slabs large)
include mapped

section

variable (inv : Kpages.Inv kva')
include inv

theorem Mapped.keep (kept : ∀ r ∈ kva.live, (classOf slabs r.virt ≠ none ∨
      ∃ l ∈ large, l.virt = r.virt) → r ∈ kva'.live) : Mapped kva' slabs large where
  inv := inv
  slab virt cls found := by
    refine kept _ (mapped.slab virt cls found) (.inl ?_)
    rw [found]
    nofun
  range l inside := kept _ (mapped.range l inside) (.inr ⟨l, inside, rfl⟩)
  apart := mapped.apart
  room := mapped.room
  nodup := mapped.nodup

theorem Mapped.slab_ne {r : Range}
    (taken : kva'.live = r :: kva.live) : classOf slabs r.virt = none := by
  cases found : classOf slabs r.virt with
  | none => rfl
  | some cls => exact (fresh_start inv taken (mapped.slab r.virt cls found) rfl).elim

theorem Mapped.large_ne {r : Range} (taken : kva'.live = r :: kva.live) :
    ∀ l ∈ large, l.virt ≠ r.virt :=
  fun l inside => fresh_start inv taken (mapped.range l inside)

theorem Mapped.addLarge {pages : Nat} (taken : kva'.live = ⟨virt, pages⟩ :: kva.live)
    (room : virt + largeHeaderSize + size ≤ virt + pages * pageSize) :
    Mapped kva' slabs (⟨virt, pages, size⟩ :: large) := by
  have kept := mapped.keep inv fun r held _ => by
    rw [taken]
    exact mem_cons_of_mem _ held
  constructor
  case inv => exact inv
  case slab => exact kept.slab
  case range =>
    rintro l (_ | ⟨_, inside⟩)
    · rw [taken]
      exact mem_cons_self ..
    · exact kept.range l inside
  case apart =>
    rintro l (_ | ⟨_, inside⟩)
    · exact mapped.slab_ne inv taken
    · exact kept.apart l inside
  case room =>
    rintro l (_ | ⟨_, inside⟩)
    · exact room
    · exact kept.room l inside
  case nodup =>
    refine nodup_cons.mpr ⟨?_, mapped.nodup⟩
    intro again
    obtain ⟨l, inside, same⟩ := mem_map.mp again
    exact mapped.large_ne inv taken l inside same

theorem Mapped.addSlab (taken : kva'.live = ⟨virt, 1⟩ :: kva.live) :
    Mapped kva' (slabs.setPage virt (freshPage cls)) large := by
  have kept := mapped.keep inv fun r held _ => by
    rw [taken]
    exact mem_cons_of_mem _ held
  have others : ∀ other, other ≠ virt → classOf (slabs.setPage virt (freshPage cls)) other =
        classOf slabs other := by
    intro other apart
    simp [classOf, Slabs.setPage, apart]
  constructor
  case inv => exact inv
  case slab =>
    intro other c found
    by_cases here : other = virt
    · rw [taken, here]
      exact mem_cons_self ..
    · rw [others other here] at found
      exact kept.slab other c found
  case range => exact kept.range
  case apart =>
    intro l inside
    rw [others _ (mapped.large_ne inv taken l inside)]
    exact kept.apart l inside
  case room => exact kept.room
  case nodup => exact mapped.nodup

theorem Mapped.dropSlab
    (freed : kva'.live = kva.live.erase ⟨virt, 1⟩) (mine : classOf slabs virt ≠ none) :
    Mapped kva' { slabs with page := update slabs.page virt none } large := by
  have others : ∀ other, other ≠ virt → classOf { slabs with page := update slabs.page virt none }
        other = classOf slabs other := by
    intro other apart
    simp [classOf, apart]
  have largeApart : ∀ l ∈ large, l.virt ≠ virt := by
    rintro l inside rfl
    exact mine (mapped.apart l inside)
  have left : ∀ r ∈ kva.live, r.virt ≠ virt → r ∈ kva'.live := by
    intro r held apart
    rw [freed]
    refine (mem_erase_of_ne ?_).mpr held
    rintro rfl
    exact apart rfl
  constructor
  case inv => exact inv
  case slab =>
    intro other c found
    by_cases here : other = virt
    · subst here
      simp [classOf] at found
    · rw [others other here] at found
      exact left _ (mapped.slab other c found) here
  case range => exact fun l inside => left _ (mapped.range l inside) (largeApart l inside)
  case apart =>
    intro l inside
    rw [others _ (largeApart l inside)]
    exact mapped.apart l inside
  case room => exact mapped.room
  case nodup => exact mapped.nodup

theorem Mapped.dropLarge (inside : l ∈ large)
    (freed : kva'.live = kva.live.erase ⟨l.virt, l.pages⟩) : Mapped kva' slabs (large.erase l) := by
  have left : ∀ r ∈ kva.live, r.virt ≠ l.virt → r ∈ kva'.live := by
    intro r held apart
    rw [freed]
    refine (mem_erase_of_ne ?_).mpr held
    rintro rfl
    exact apart rfl
  have once : (large.Nodup) := mapped.nodup.of_map
  have subset : ∀ m ∈ large.erase l, m ∈ large := fun m still => mem_of_mem_erase still
  have others : ∀ m ∈ large.erase l, m.virt ≠ l.virt := by
    intro m still same
    cases inj_on_of_nodup_map mapped.nodup (subset m still) inside same
    exact once.not_mem_erase still
  constructor
  case inv => exact inv
  case slab =>
    intro virt c found
    refine left _ (mapped.slab virt c found) ?_
    rintro rfl
    rw [mapped.apart l inside] at found
    cases found
  case range => exact fun m still => left _ (mapped.range m (subset m still)) (others m still)
  case apart => exact fun m still => mapped.apart m (subset m still)
  case room => exact fun m still => mapped.room m (subset m still)
  case nodup => exact mapped.nodup.sublist (erase_sublist.map Large.virt)

end

end

end Mapping

/-! ### Calls -/

variable {obj : Obj} {ptr : Nat}

section Calls

variable {s : State}

theorem HeapOk.alloc (ok : HeapOk s) {count : Nat} (backed : Bool)
    (inWord : s.kva.pool.bump + count * pageSize < wordSize) :
    Kpages.Inv (kpagesAlloc s.kva count backed).2 ∧ (((kpagesAlloc s.kva count backed).1 = 0 ∧
        (kpagesAlloc s.kva count backed).2.live = s.kva.live) ∨
      ((kpagesAlloc s.kva count backed).1 ≠ 0 ∧ 0 < count ∧
        (kpagesAlloc s.kva count backed).2.live =
          ⟨(kpagesAlloc s.kva count backed).1, count⟩ :: s.kva.live)) :=
  ok.mapped.inv.kpagesAlloc count backed inWord

theorem handPages_erase (found : task ∈ s.tasks) :
    (handPages s).Perm (task.pages ++ (s.tasks.erase task).flatMap Task.pages) :=
  (perm_cons_erase found).flatMap_right Task.pages

theorem idleSlots_erase (found : task ∈ s.tasks) : (idleSlots s).Perm (task.slots ++
      (s.caches.flatten ++ (s.tasks.erase task).flatMap Task.slots)) := by
  have pulled := (perm_cons_erase found).flatMap_right Task.slots
  refine (pulled.append_left s.caches.flatten).trans ?_
  exact perm_append_comm_assoc ..

theorem Classed.advance {slabs : Slabs} {next : List Task} (classed : Classed slabs s)
    (ok : ∀ t ∈ next, TaskOk slabs t) : ∀ t ∈ (s.advance task next).tasks, TaskOk slabs t := by
  intro t inside
  rcases mem_append.mp inside with new | old
  · exact ok t new
  · exact classed.tasks t (mem_of_mem_erase old)

variable {rest : List Nat}

theorem HeapOk.hit (ok : HeapOk s) {cpu obj : Nat} (suits : Suits cls size)
    (found : s.caches[cacheIndex cpu cls]? = some (obj :: rest)) :
    HeapOk { s with
      caches := s.caches.set (cacheIndex cpu cls) rest
      live := ⟨obj, size⟩ :: s.live } := by
  have mine : cacheIndex cpu cls % numClasses = cls := by
    rw [cacheIndex, Nat.mul_add_mod', Nat.mod_eq_of_lt suits.1]
  have slot := ok.classed.caches _ _ found
  rw [mine] at slot
  constructor
  case mapped => exact ok.mapped
  case slabs => exact ok.slabs
  case hands => exact ok.hands
  case placed =>
    refine ok.placed.perm (perm_iff_count.mpr fun a => ?_)
    have moved := count_flatMap_set id rest found a
    simp only [flatMap_id, id] at moved
    simp only [outSlots, idleSlots, map_cons, count_append, count_cons] at moved ⊢
    omega
  case classed =>
    constructor
    case live =>
      rintro o (_ | ⟨_, inside⟩)
      · exact ⟨cls, slot obj (mem_cons_self ..), suits.2⟩
      · exact ok.classed.live o inside
    case caches =>
      intro i cache at_ a inside
      rw [List.getElem?_set] at at_
      split at at_
      · rename_i same
        subst same
        rw [mine]
        split at at_
        · cases at_
          exact slot a (mem_cons_of_mem _ inside)
        · cases at_
      · exact ok.classed.caches i cache at_ a inside
    case tasks => exact ok.classed.tasks
    case length => exact length_set.trans ok.classed.length

theorem HeapOk.miss (ok : HeapOk s) (suits : Suits cls size) :
    HeapOk { s with tasks := .missed cls size :: s.tasks } where
  mapped := ok.mapped
  slabs := ok.slabs
  hands := ok.hands
  placed := ok.placed
  classed :=
    { ok.classed with
      tasks := by
        rintro t (_ | ⟨_, inside⟩)
        · exact suits
        · exact ok.classed.tasks t inside }

theorem largePages_room (fits : size + largeHeaderSize ≤ wordSize) (some : 0 < largePages size) :
    largeHeaderSize + size ≤ largePages size * pageSize := by
  simp only [largePages, largeHeaderSize, pageSize, wordSize] at *
  omega

theorem HeapOk.large (ok : HeapOk s) (backed : Bool) (fits : size + largeHeaderSize ≤ wordSize)
    (inWord : s.kva.pool.bump + largePages size * pageSize < wordSize) :
    HeapOk (if (kpagesAlloc s.kva (largePages size) backed).1 = 0 then
        { s with kva := (kpagesAlloc s.kva (largePages size) backed).2 }
      else
        { s with
          kva := (kpagesAlloc s.kva (largePages size) backed).2
          large := ⟨(kpagesAlloc s.kva (largePages size) backed).1,
            largePages size, size⟩ :: s.large }) := by
  obtain ⟨inv, ⟨none, same⟩ | ⟨granted, some, taken⟩⟩ := ok.alloc backed inWord
  · rw [if_pos none]
    exact { ok with
      mapped := ok.mapped.keep inv fun r held _ => same ▸ held
      classed := { ok.classed with } }
  · rw [if_neg granted]
    have room := largePages_room fits some
    exact { ok with
      mapped := ok.mapped.addLarge inv taken (by omega)
      classed := { ok.classed with } }

theorem HeapOk.batch (ok : HeapOk s) (found : .missed cls size ∈ s.tasks) :
    HeapOk { s.advance (.missed cls size)
        [if (claimBatch cls (kmCacheDepth / 2 + 1) s.slabs []).1 = [] then
            .creating cls size
          else .stocking cls size (claimBatch cls (kmCacheDepth / 2 + 1) s.slabs []).1] with
      slabs := (claimBatch cls (kmCacheDepth / 2 + 1) s.slabs []).2 } := by
  have suits : Suits cls size := ok.classed.tasks _ found
  generalize kmCacheDepth / 2 + 1 = times
  have classes := claimBatch_classOf cls times s.slabs []
  have spec := claimBatch_spec cls times s.slabs [] ok.slabs
  generalize claimBatch cls times s.slabs [] = result at classes spec ⊢
  obtain ⟨new, slabs⟩ := result
  obtain ⟨_, same, slabsOk, distinct, free, slots⟩ := spec
  rw [append_nil] at same
  subst same
  have hands : [if new = [] then Task.creating cls size
      else .stocking cls size new].flatMap Task.pages = [] := by
    split <;> rfl
  have outs : [if new = [] then Task.creating cls size
      else .stocking cls size new].flatMap Task.slots = new := by
    split
    · rename_i empty
      exact empty.symm
    · exact append_nil new
  have pages : (handPages (s.advance (.missed cls size) [if new = [] then Task.creating cls size
        else .stocking cls size new])).Perm (handPages s) := by
    simp only [handPages, State.advance, flatMap_append, hands]
    exact (handPages_erase found).symm
  have classed : Classed slabs s := ok.classed.mono (fun c a _ slot => (slots c a).mpr (.inl slot))
    (fun virt _ => congrFun classes virt)
  constructor
  case mapped => exact ok.mapped.congr classes
  case slabs => exact slabsOk.congr fun w => pages.mem_iff
  case hands => exact pages.nodup_iff.mpr ok.hands
  case placed =>
    refine (ok.placed.claim cls distinct free slots).perm (perm_iff_count.mpr fun a => ?_)
    have idle := (idleSlots_erase found).count_eq a
    simp only [outSlots, idleSlots, State.advance, flatMap_append, outs,
      Task.slots, count_append, count_nil] at idle ⊢
    omega
  case classed =>
    refine { classed with tasks := classed.advance ?_ }
    intro t inside
    rw [mem_singleton] at inside
    subst inside
    split
    · exact suits
    · exact ⟨suits, fun a mine => (slots cls a).mpr (.inr ⟨rfl, mine⟩)⟩

theorem HeapOk.create (ok : HeapOk s) (backed : Bool) (found : .creating cls size ∈ s.tasks) :
    HeapOk (if (kpagesAlloc s.kva 1 backed).1 = 0 then
        { s.advance (.creating cls size) [] with kva := (kpagesAlloc s.kva 1 backed).2 }
      else
        { s.advance (.creating cls size)
            [.created cls size (kpagesAlloc s.kva 1 backed).1] with
          kva := (kpagesAlloc s.kva 1 backed).2
          slabs := s.slabs.setPage (kpagesAlloc s.kva 1 backed).1 (freshPage cls) }) := by
  have suits : Suits cls size := ok.classed.tasks _ found
  have inWord : s.kva.pool.bump + 1 * pageSize < wordSize := by
    obtain ⟨n, tiled⟩ := ok.mapped.inv.tiled
    have limit := tiled.limit
    have word := Kpages.window_lt_word
    omega
  have pages := handPages_erase found
  have slots := idleSlots_erase found
  obtain ⟨inv, ⟨none, same⟩ | ⟨granted, _, taken⟩⟩ := ok.alloc backed inWord
  · rw [if_pos none]
    constructor
    case mapped => exact ok.mapped.keep inv fun r held _ => same ▸ held
    case slabs => exact ok.slabs.congr fun w => pages.symm.mem_iff
    case hands => exact pages.nodup_iff.mp ok.hands
    case placed => exact ok.placed.perm (slots.symm.append_left _)
    case classed => exact { ok.classed with tasks := ok.classed.advance nofun }
  rw [if_neg granted]
  generalize (kpagesAlloc s.kva 1 backed).1 = virt at granted taken ⊢
  have held : ⟨virt, 1⟩ ∈ (kpagesAlloc s.kva 1 backed).2.live := by
    rw [taken]
    exact mem_cons_self ..
  obtain ⟨_, aligned, high⟩ := live_placed inv held
  rw [one_mul] at high
  have unmapped := ok.mapped.slab_ne inv taken
  obtain ⟨slabsOk, same⟩ := ok.slabs.create (classOf_eq_none.mp unmapped) suits.1 aligned high
  have absent : virt ∉ handPages s := by
    intro inside
    obtain ⟨_, was, _⟩ := ok.slabs.held virt inside
    rw [classOf_eq_none.mp unmapped] at was
    cases was
  have others : ∀ other, other ≠ virt → classOf (s.slabs.setPage virt (freshPage cls)) other =
        classOf s.slabs other := by
    intro other apart
    simp [classOf, Slabs.setPage, apart]
  have classed : Classed (s.slabs.setPage virt (freshPage cls)) s :=
    ok.classed.mono (fun c a _ slot => (same c a).mpr slot) (by
      rintro other inside
      exact others other (fun here => absent (here ▸ inside)))
  have hands : (handPages (s.advance (.creating cls size)
      [.created cls size virt])).Perm (virt :: handPages s) :=
    (pages.symm.cons virt)
  constructor
  case mapped => exact ok.mapped.addSlab inv taken
  case slabs =>
    refine slabsOk.congr fun w => hands.mem_iff.trans ?_
    rw [mem_cons, or_comm]
  case hands => exact hands.nodup_iff.mpr (nodup_cons.mpr ⟨absent, ok.hands⟩)
  case placed => exact (ok.placed.same same).perm (slots.symm.append_left _)
  case classed =>
    refine { classed with tasks := classed.advance ?_ }
    intro t inside
    rw [mem_singleton] at inside
    subst inside
    refine ⟨suits, ?_⟩
    simp [classOf, Slabs.setPage, freshPage]

theorem HeapOk.publish (ok : HeapOk s) (found : .created cls size virt ∈ s.tasks) :
    HeapOk { s.advance (.created cls size virt) [] with
      slabs := (claimOn (partialPush s.slabs cls virt) cls virt).2
      live := ⟨(claimOn (partialPush s.slabs cls virt) cls virt).1, size⟩ :: s.live } := by
  have task : Suits cls size ∧ classOf s.slabs virt = some cls := ok.classed.tasks _ found
  obtain ⟨suits, its⟩ := task
  obtain ⟨p, was, rfl⟩ := classOf_eq_some.mp its
  have pages : (handPages s).Perm (virt ::
      (s.tasks.erase (.created p.classIdx size virt)).flatMap Task.pages) :=
    handPages_erase found
  have slots := idleSlots_erase found
  have distinct := nodup_cons.mp (pages.nodup_iff.mp ok.hands)
  have inHand : virt ∈ handPages s := pages.symm.subset (mem_cons_self ..)
  obtain ⟨pushedOk, at_, pushedSame⟩ := ok.slabs.publish was inHand
  obtain ⟨idx, _, _, addr, claimedOk, free, claimed⟩ := claimOn_spec pushedOk at_ rfl
  have classes : classOf (claimOn (partialPush s.slabs p.classIdx virt)
      p.classIdx virt).2 = classOf s.slabs := by
    rw [claimOn_classOf, partialPush_classOf]
  generalize slotStart virt _ idx = obj at addr free claimed
  rw [show (claimOn (partialPush s.slabs p.classIdx virt) p.classIdx virt).1 = obj from addr]
  have classed := ok.classed.mono (fun c a _ slot =>
    (claimed c a).mpr (.inl ((pushedSame c a).mpr slot))) (fun virt _ => congrFun classes virt)
  constructor
  case mapped => exact ok.mapped.congr classes
  case slabs =>
    refine claimedOk.congr fun w => ?_
    rw [pages.mem_iff, mem_cons]
    constructor
    · intro other
      refine ⟨.inr other, ?_⟩
      rintro rfl
      exact distinct.1 other
    · rintro ⟨here | other, apart⟩
      · exact absurd here apart
      · exact other
  case hands => exact distinct.2
  case placed =>
    refine (((ok.placed.same pushedSame).claim p.classIdx (nodup_singleton obj) ?_ ?_).perm ?_)
    · intro a inside
      rw [mem_singleton] at inside
      subst inside
      exact free
    · intro c a
      rw [mem_singleton]
      exact claimed c a
    · exact (slots.symm.append_left _).cons obj
  case classed =>
    refine { classed with live := ?_, tasks := classed.advance nofun }
    rintro o (_ | ⟨_, inside⟩)
    · exact ⟨p.classIdx, (claimed _ _).mpr (.inr ⟨rfl, rfl⟩), suits.2⟩
    · exact classed.live o inside

theorem stockCache_perm (rest cache : List Nat) :
    ((stockCache rest cache).1 ++ (stockCache rest cache).2).Perm (rest ++ cache) := by
  induction rest generalizing cache with
  | nil => exact .refl _
  | cons obj _ ih =>
    rw [stockCache]
    split
    · exact (ih (obj :: cache)).trans perm_middle
    · exact .refl _

theorem HeapOk.stock (ok : HeapOk s) {cpu obj : Nat}
    (found : .stocking cls size (obj :: rest) ∈ s.tasks) (known : cpu < maxCpus) :

    HeapOk { s.advance (.stocking cls size (obj :: rest))
        [.surplus (stockCache rest (s.caches.getD (cacheIndex cpu cls) [])).1] with
      caches := s.caches.set (cacheIndex cpu cls)
        (stockCache rest (s.caches.getD (cacheIndex cpu cls) [])).2
      live := ⟨obj, size⟩ :: s.live } := by
  have task : Suits cls size ∧ ∀ a ∈ obj :: rest, SlotOf s.slabs cls a := ok.classed.tasks _ found
  obtain ⟨suits, batch⟩ := task
  have mine : cacheIndex cpu cls % numClasses = cls := by
    rw [cacheIndex, Nat.mul_add_mod', Nat.mod_eq_of_lt suits.1]
  have inside : cacheIndex cpu cls < s.caches.length := by
    rw [ok.classed.length, cacheIndex]
    simp only [maxCpus, numClasses] at *
    omega
  have at_ : s.caches[cacheIndex cpu cls]? = some (s.caches.getD (cacheIndex cpu cls) []) := by
    simp [inside]
  generalize s.caches.getD (cacheIndex cpu cls) [] = cache at at_ ⊢
  have shared := stockCache_perm rest cache
  generalize stockCache rest cache = result at shared ⊢
  obtain ⟨left, full⟩ := result
  have pages := handPages_erase found
  have slot := ok.classed.caches _ _ at_
  rw [mine] at slot
  constructor
  case mapped => exact ok.mapped
  case slabs => exact ok.slabs.congr fun w => pages.symm.mem_iff
  case hands => exact pages.nodup_iff.mp ok.hands
  case placed =>
    refine ok.placed.perm (perm_iff_count.mpr fun a => ?_)
    have moved := count_flatMap_set id full at_ a
    have idle := (idleSlots_erase found).count_eq a
    have parts := shared.count_eq a
    simp only [flatMap_id, id] at moved
    simp only [outSlots, idleSlots, State.advance, flatMap_append,
      flatMap_cons, flatMap_nil, Task.slots, map_cons, count_append, count_cons, count_nil] at *
    omega
  case classed =>
    constructor
    case live =>
      rintro o (_ | ⟨_, old⟩)
      · exact ⟨cls, batch obj (mem_cons_self ..), suits.2⟩
      · exact ok.classed.live o old
    case caches =>
      intro i list place a mem
      rw [List.getElem?_set] at place
      split at place
      · rename_i same
        subst same
        rw [mine]
        cases place
        have origin := shared.subset (mem_append_right _ mem)
        rcases mem_append.mp origin with new | old
        · exact batch a (mem_cons_of_mem _ new)
        · exact slot a old
      · exact ok.classed.caches i list place a mem
    case tasks =>
      refine ok.classed.advance ?_
      intro t new
      rw [mem_singleton] at new
      subst new
      trivial
    case length => exact length_set.trans ok.classed.length

theorem drained_pages (empty : Option Nat) : (drained empty).flatMap Task.pages = empty.toList := by
  cases empty <;> rfl

theorem drained_slots (empty : Option Nat) : (drained empty).flatMap Task.slots = [] := by
  cases empty <;> rfl

theorem drained_ok (slabs : Slabs) (empty : Option Nat) : ∀ t ∈ drained empty, TaskOk slabs t := by
  cases empty with
  | none => nofun
  | some =>
    intro t inside
    rw [drained, mem_singleton] at inside
    subst inside
    trivial

section

variable (ok : HeapOk s)
include ok

theorem HeapOk.release {s' : State} {addr : Nat} (kva : s'.kva = s.kva)
    (large : s'.large = s.large) (slabs : s'.slabs = (releaseSlotChecked s.slabs addr).2)
    (out : (addr :: outSlots s').Perm (outSlots s))
    (hands : (handPages s').Perm ((releaseSlotChecked s.slabs addr).1.toList ++ handPages s))
    (classed : Classed s.slabs s') : HeapOk s' := by
  obtain ⟨_, slot⟩ := (ok.placed.mem addr).mp (out.subset (mem_cons_self ..))
  have classes := releaseSlotChecked_classOf s.slabs addr
  obtain ⟨slabsOk, loose, slots⟩ := releaseSlotChecked_taken ok.slabs slot
  rw [← slabs] at classes slabsOk slots
  have placed : Placed s'.slabs (outSlots s') := (ok.placed.perm out).release slots
  constructor
  case mapped =>
    rw [kva, large]
    exact ok.mapped.congr classes
  case slabs =>
    refine slabsOk.congr fun w => hands.mem_iff.trans ?_
    rw [mem_append, mem_toList, or_comm]
  case hands =>
    refine hands.nodup_iff.mpr (nodup_append'.mpr ⟨?_, ok.hands, ?_⟩)
    · cases (releaseSlotChecked s.slabs addr).1 <;> simp
    · intro w drained held
      exact loose w (mem_toList.mp drained) held
  case placed => exact placed
  case classed =>
    refine classed.mono (fun c a inside old => ?_) fun virt _ => congrFun classes virt
    refine (slots c a).mpr ⟨old, ?_⟩
    rintro rfl
    exact (nodup_cons.mp (out.nodup_iff.mpr ok.placed.nodup)).1 inside

theorem HeapOk.surplus {obj : Nat} (found : .surplus (obj :: rest) ∈ s.tasks) :
    HeapOk { s.advance (.surplus (obj :: rest))
        (.surplus rest :: drained (releaseSlotChecked s.slabs obj).1) with
      slabs := (releaseSlotChecked s.slabs obj).2 } := by
  refine ok.release rfl rfl rfl (perm_iff_count.mpr fun a => ?_) (perm_iff_count.mpr fun a => ?_) ?_
  · have idle := (idleSlots_erase found).count_eq a
    simp only [outSlots, idleSlots, State.advance, cons_append, flatMap_cons,
      flatMap_append, drained_slots, Task.slots, count_append, count_cons, count_nil] at *
    omega
  · have pages := (handPages_erase found).count_eq a
    simp only [handPages, State.advance, cons_append, flatMap_cons,
      flatMap_append, drained_pages, Task.pages, count_append, count_nil] at *
    omega
  · refine { ok.classed with tasks := ok.classed.advance ?_ }
    rintro t (_ | ⟨_, inside⟩)
    · trivial
    · exact drained_ok _ _ t inside

theorem HeapOk.free (held : obj ∈ s.live) : HeapOk (freeSlot s obj.addr) := by
  have gone : (obj.addr :: (s.live.eraseP fun o => o.addr == obj.addr).map Obj.addr).Perm
      (s.live.map Obj.addr) := by
    obtain ⟨_, _, _, _, same, whole, rest⟩ :=
      exists_of_eraseP (p := fun o => o.addr == obj.addr) held (beq_self_eq_true obj.addr)
    rw [rest, whole, ← beq_iff_eq.mp same, map_append, map_append]
    exact perm_middle.symm
  refine ok.release rfl rfl rfl (perm_iff_count.mpr fun a => ?_) (perm_iff_count.mpr fun a => ?_) ?_
  · have moved := gone.count_eq a
    simp only [outSlots, idleSlots, freeSlot, flatMap_append,
      drained_slots, count_append, count_cons, count_nil] at *
    omega
  · simp only [handPages, freeSlot, flatMap_append, drained_pages]
  constructor
  case live => exact fun o still => ok.classed.live o (mem_of_mem_eraseP still)
  case caches => exact ok.classed.caches
  case tasks =>
    intro t inside
    rcases mem_append.mp inside with new | old
    · exact drained_ok _ _ t new
    · exact ok.classed.tasks t old
  case length => exact ok.classed.length

theorem HeapOk.trim :
    HeapOk { s with
      slabs := (kheapEmptyTrim s.slabs).1
      tasks := .chain (kheapEmptyTrim s.slabs).2 :: s.tasks } := by
  have classes := kheapEmptyTrim_classOf s.slabs
  have spec := kheapEmptyTrim_spec ok.slabs
  generalize kheapEmptyTrim s.slabs = result at classes spec ⊢
  obtain ⟨slabsOk, distinct, loose, slots⟩ := spec
  have classed := ok.classed.mono (fun c a _ slot => (slots c a).mpr slot)
    fun virt _ => congrFun classes virt
  constructor
  case mapped => exact ok.mapped.congr classes
  case slabs =>
    refine slabsOk.congr fun w => ?_
    rw [or_comm]
    exact mem_append
  case hands => exact nodup_append'.mpr ⟨distinct, ok.hands, fun w => loose w⟩
  case placed => exact ok.placed.same slots
  case classed =>
    refine { classed with tasks := ?_ }
    rintro t (_ | ⟨_, inside⟩)
    · trivial
    · exact classed.tasks t inside

theorem HeapOk.pageFree (found : .chain (virt :: rest) ∈ s.tasks) :
    HeapOk { s.advance (.chain (virt :: rest)) [.chain rest] with
      slabs := { s.slabs with page := update s.slabs.page virt none }
      kva := kpagesFree s.kva virt 1 } := by
  have pages : (handPages s).Perm (virt :: handPages
      (s.advance (.chain (virt :: rest)) [.chain rest])) :=
    handPages_erase found
  have slots := idleSlots_erase found
  have distinct := nodup_cons.mp (pages.nodup_iff.mp ok.hands)
  have inHand : virt ∈ handPages s := pages.symm.subset (mem_cons_self ..)
  obtain ⟨p, was, _⟩ := ok.slabs.held virt inHand
  have its : classOf s.slabs virt = some p.classIdx := classOf_eq_some.mpr ⟨p, was, rfl⟩
  have held := ok.mapped.slab virt _ its
  have above : virt ≠ 0 := by
    have low := (live_placed ok.mapped.inv held).1
    simp only [Kpages.kheapVbase] at low
    omega
  obtain ⟨inv, freed⟩ := ok.mapped.inv.kpagesFree held above
  obtain ⟨slabsOk, same⟩ := ok.slabs.unmap inHand
  have classed : Classed { s.slabs with page := update s.slabs.page virt none }
      (s.advance (.chain (virt :: rest)) [.chain rest]) := by
    have before : Classed s.slabs (s.advance (.chain (virt :: rest)) [.chain rest]) := by
      refine { ok.classed with tasks := ok.classed.advance ?_ }
      intro t inside
      rw [mem_singleton] at inside
      subst inside
      trivial
    refine before.mono (fun c a _ slot => (same c a).mpr slot) ?_
    intro other inside
    have apart : other ≠ virt := by
      rintro rfl
      exact distinct.1 inside
    simp [classOf, apart]
  constructor
  case mapped =>
    refine ok.mapped.dropSlab inv freed ?_
    rw [its]
    nofun
  case slabs =>
    refine slabsOk.congr fun w => ?_
    rw [pages.mem_iff, mem_cons]
    constructor
    · intro other
      refine ⟨.inr other, ?_⟩
      rintro rfl
      exact distinct.1 other
    · rintro ⟨here | other, apart⟩
      · exact absurd here apart
      · exact other
  case hands => exact distinct.2
  case placed => exact (ok.placed.same same).perm (slots.symm.append_left _)
  case classed => exact { classed with }

end

theorem largeAt_some (found : s.largeAt virt = some l) : l ∈ s.large ∧ l.virt = virt :=
  ⟨mem_of_find?_eq_some found, beq_iff_eq.mp
    (List.find?_some (p := fun l : Large => l.virt == virt) found)⟩

theorem largeAt_none (missing : s.largeAt virt = none) : ∀ l ∈ s.large, l.virt ≠ virt := by
  intro l inside same
  exact absurd (beq_iff_eq.mpr same) (List.find?_eq_none.mp missing l inside)

section

variable (ok : HeapOk s)
include ok

theorem HeapOk.other {action : Kpages.Action} {kva : Kva}
    (foreign : (heldOf action).all fun held => !s.owns held)
    (taken : Kpages.exec s.kva action = some kva)
    (inWord : Kpages.NoWrap s.kva action) : HeapOk { s with kva } := by
  have inv : Kpages.Inv kva := ok.mapped.inv.step taken inWord
  refine { ok with mapped := ok.mapped.keep inv ?_, classed := { ok.classed with } }
  intro r held owned
  have mine : ∀ other, heldOf action = some other → r ≠ other := by
    rintro other same rfl
    rw [same, all_some, Bool.not_eq_true', State.owns, Bool.or_eq_false_iff] at foreign
    rcases owned with slab | ⟨l, inside, same⟩
    · exact slab (classOf_eq_none.mpr (not_isSome_iff_eq_none.mp (Bool.not_eq_true _ ▸ foreign.1)))
    · exact largeAt_none (not_isSome_iff_eq_none.mp (Bool.not_eq_true _ ▸ foreign.2)) l inside same
  cases action with
  | take =>
    simp only [Kpages.exec] at taken
    split at taken
    · cases taken
    split at taken
    · cases taken
      exact held
    · cases taken
      exact mem_cons_of_mem _ held
  | unback other =>
    simp only [Kpages.exec] at taken
    split at taken
    · cases taken
      exact (mem_erase_of_ne (mine other rfl)).mpr held
    · cases taken
  | free other =>
    simp only [Kpages.exec] at taken
    split at taken
    · cases taken
      exact mem_append_right _ ((mem_erase_of_ne (mine other rfl)).mpr held)
    · cases taken
  | trimRound =>
    simp only [Kpages.exec, map_eq_some_iff] at taken
    obtain ⟨_, _, rfl⟩ := taken
    exact held

theorem HeapOk.freeLarge (held : l ∈ s.large) : HeapOk (s.freeLarge l) := by
  have range := ok.mapped.range l held
  have above : l.virt ≠ 0 := by
    have low := (live_placed ok.mapped.inv range).1
    simp only [Kpages.kheapVbase] at low
    omega
  obtain ⟨inv, freed⟩ := ok.mapped.inv.kpagesFree range above
  exact { ok with mapped := ok.mapped.dropLarge inv held freed, classed := { ok.classed with } }

theorem HeapOk.page_of_live (held : obj ∈ s.live) : (s.slabs.page (pageBase obj.addr)).isSome := by
  obtain ⟨_, ⟨_, _, _, was, _, below, _, same⟩, _⟩ := ok.classed.live obj held
  rw [same, ok.slabs.pageBase_slot was below, was]
  rfl

theorem HeapOk.page_of_large (held : l ∈ s.large) : pageBase l.addr = l.virt := by
  obtain ⟨_, aligned, _⟩ := live_placed ok.mapped.inv (ok.mapped.range l held)
  refine pageBase_eq aligned (Nat.le_add_right ..) ?_
  exact Nat.add_lt_add_left (show largeHeaderSize < pageSize by decide) _

theorem HeapOk.largeAt_eq (held : l ∈ s.large) : s.largeAt l.virt = some l := by
  cases found : s.largeAt l.virt with
  | none => exact absurd rfl (largeAt_none found l held)
  | some =>
    obtain ⟨inside, same⟩ := largeAt_some found
    rw [inj_on_of_nodup_map ok.mapped.nodup inside held same]

theorem HeapOk.kfree_live (live : Live s ptr) (pageWord headerWord : Option Nat) :
    HeapOk (kfree s ptr pageWord headerWord) := by
  unfold kfree
  split
  · exact ok
  rcases live with ⟨obj, held, rfl⟩ | ⟨l, held, rfl⟩
  · rw [if_pos (ok.page_of_live held)]
    exact ok.free held
  have unslabbed := classOf_eq_none.mp (ok.mapped.apart l held)
  have back : l.addr - largeHeaderSize = l.virt := Nat.add_sub_cancel ..
  have past : largeHeaderSize ≤ l.addr := Nat.le_add_left ..
  rw [ok.page_of_large held, unslabbed, ok.largeAt_eq held]
  simp only [freeByHeader, if_pos past, back, ok.largeAt_eq held]
  exact ok.freeLarge held

theorem HeapOk.caught {s' : State} (caught : Caught s ptr s') : HeapOk s' := by
  rcases caught with ⟨_, rfl⟩ | rfl | rfl
  · exact ok
  · exact { ok with
      mapped := { ok.mapped with }
      slabs := { ok.slabs with }
      placed := { ok.placed with }
      classed := { ok.classed with } }
  · exact { ok with classed := { ok.classed with } }

theorem HeapOk.no_slot (dead : ¬ Live s ptr)
    (active : ptr ∉ idleSlots s) : ∀ c, ¬ SlotOf s.slabs c ptr := by
  intro c slot
  rcases mem_append.mp ((ok.placed.mem ptr).mpr ⟨c, slot⟩) with held | idle
  · obtain ⟨obj, inside, same⟩ := mem_map.mp held
    exact dead (.inl ⟨obj, inside, same⟩)
  · exact active idle

theorem freeSlot_caught {p : SlabPage} (dead : ¬ Live s ptr)
    (active : ptr ∉ idleSlots s) (was : s.slabs.page (pageBase ptr) = some p) :
    freeSlot s ptr = { s with slabs := s.slabs.catchFree } := by
  have kept : (s.live.eraseP fun obj => obj.addr == ptr) = s.live := by
    refine eraseP_of_forall_not fun obj inside same => ?_
    exact dead (.inl ⟨obj, inside, beq_iff_eq.mp same⟩)
  simp only [freeSlot, releaseSlotChecked_caught ok.slabs was
    (ok.no_slot dead active), kept, drained, nil_append]

theorem freeSlot_idle (idle : ptr ∈ idleSlots s) :
    (freeSlot s ptr).slabs ≠ s.slabs ∧ (freeSlot s ptr).slabs ≠ s.slabs.catchFree := by
  obtain ⟨cls, slot⟩ := (ok.placed.mem ptr).mp (mem_append_right _ idle)
  obtain ⟨_, _, slots⟩ := releaseSlotChecked_taken ok.slabs slot
  have freed : ¬ SlotOf (freeSlot s ptr).slabs cls ptr :=
    fun still => ((slots cls ptr).mp still).2 rfl
  constructor
  · intro same
    exact freed (same ▸ slot)
  · intro same
    rw [same] at freed
    exact freed slot

end

theorem freeByHeader_dead {ptr : Nat} (dead : ¬ Live s ptr) (headerWord : Option Nat) :
    freeByHeader s ptr headerWord = match headerWord with
      | none => { s with wild := true }
      | some word =>
        if word = largeMagic then { s with wild := true }
        else { s with unknown := s.unknown + 1 } := by
  have missing : (if largeHeaderSize ≤ ptr then
      s.largeAt (ptr - largeHeaderSize) else none) = none := by
    split
    · rename_i past
      cases found : s.largeAt (ptr - largeHeaderSize) with
      | none => rfl
      | some l =>
        obtain ⟨inside, same⟩ := largeAt_some found
        refine absurd (.inr ⟨l, inside, ?_⟩) dead
        rw [Large.addr, same, Nat.sub_add_cancel past]
    · rfl
  cases headerWord with
  | none | some => simp only [freeByHeader, missing]

theorem not_caught_wild (calm : s.wild = false) : ¬ Caught s ptr { s with wild := true } := by
  rintro (⟨_, same⟩ | same | same)
  all_goals
    have flag := congrArg State.wild same
    simp [calm] at flag

theorem freeByHeader_caught (calm : s.wild = false) (dead : ¬ Live s ptr)
    (headerWord : Option Nat) : Caught s ptr (freeByHeader s ptr headerWord) ↔
      ∃ word, headerWord = some word ∧ word ≠ largeMagic := by
  rw [freeByHeader_dead dead]
  cases headerWord with
  | none => simp [not_caught_wild calm]
  | some word =>
    by_cases magic : word = largeMagic
    · simp [magic, not_caught_wild calm]
    · simp [magic, Caught]

theorem HeapOk.kfree_dead (ok : HeapOk s) (calm : s.wild = false)
    (dead : ¬ Live s ptr) (pageWord headerWord : Option Nat) : Caught s ptr
    (kfree s ptr pageWord headerWord) ↔ FreesSeen s (.kfree ptr pageWord headerWord) := by
  by_cases null : ptr = 0
  · simp [kfree, FreesSeen, Caught, null]
  simp only [kfree, FreesSeen, null, dead, false_or, if_false]
  cases was : s.slabs.page (pageBase ptr) with
  | some =>
    simp only [isSome_some, isNone_some, if_true, true_and, Bool.false_eq_true, false_and, or_false]
    constructor
    · rintro (⟨zero, _⟩ | same | same) idle
      · exact null zero
      · exact (freeSlot_idle ok idle).2 (congrArg State.slabs same :)
      · exact (freeSlot_idle ok idle).1 (congrArg State.slabs same :)
    · exact fun active => .inr (.inl (freeSlot_caught ok dead active was))
  | none =>
    simp only [isSome_none, isNone_none, Bool.false_eq_true,
      if_false, true_and, false_and, false_or]
    split
    · rename_i large
      simp only [large, true_or, true_and]
      exact freeByHeader_caught calm dead headerWord
    rename_i large
    simp only [large, Bool.false_eq_true, false_or]
    cases pageWord with
    | none => simp [not_caught_wild calm]
    | some word =>
      by_cases magic : word = slabMagic
      · simp [magic, not_caught_wild calm]
      · simp [magic, freeByHeader_caught calm dead]

end Calls

/-! ### Runs -/

section Runs

variable {s s' : State} {label : Label}

theorem outSlots_initial : outSlots initial = [] := by
  have empty : (List.replicate (maxCpus * numClasses) ([] : List Nat)).flatten = [] := by simp
  simp only [outSlots, idleSlots, Kheap.initial, empty, map_nil, flatMap_nil, append_nil]

theorem HeapOk.initial : HeapOk initial where
  mapped :=
    { inv := Kpages.Inv.initial
      slab := nofun
      range := nofun
      apart := nofun
      room := nofun
      nodup := nodup_nil }
  slabs :=
    { ok := nofun
      placed := nofun
      partialNodup := fun _ => nodup_nil
      partialMem := fun _ _ => ⟨nofun, nofun⟩
      emptyNodup := fun _ => nodup_nil
      emptyMem := nofun
      emptyN := fun _ => rfl
      listed := nofun
      held := nofun }
  hands := nodup_nil
  placed := by
    rw [outSlots_initial]
    exact ⟨nodup_nil, fun a => ⟨nofun, nofun⟩⟩
  classed :=
    { live := nofun
      caches := by
        intro i cache found
        rw [Kheap.initial, List.getElem?_replicate] at found
        split at found
        · cases found
          nofun
        · cases found
      tasks := nofun
      length := length_replicate }

/-- One section of one call keeps the heap in order, if its sizes fit and its
free is seen. -/
theorem HeapOk.step (ok : HeapOk s) (taken : step s label s') (fits : SizeFits label)
    (range : RangeFits s label) (seen : FreesSeen s label) : HeapOk s' := by
  obtain ⟨calm, taken⟩ := taken
  cases label with
  | kmalloc cpu size =>
    simp only [exec] at taken
    split at taken
    · cases taken
    obtain ⟨cls, its, taken⟩ := bind_eq_some_iff.mp taken
    have suits : Suits cls size := sizeToClass_spec its
    split at taken
    · rename_i obj rest found
      cases taken
      refine ok.hit suits ?_
      rw [getD_eq_getElem?_getD] at found
      cases place : s.caches[cacheIndex cpu cls]? with
      | none => simp [place] at found
      | some => rw [← found, place, getD_some]
    · cases taken
      exact ok.miss suits
  | kmallocLarge _ backed =>
    simp only [exec] at taken
    split at taken
    · cases taken
    have next := ok.large backed fits range
    split at taken <;> cases taken
    · rename_i zero
      rw [if_pos zero] at next
      exact next
    · rename_i granted
      rw [if_neg granted] at next
      exact next
  | batch =>
    simp only [exec] at taken
    split at taken
    · rename_i found
      cases taken
      exact ok.batch found
    · cases taken
  | create _ _ backed =>
    simp only [exec] at taken
    split at taken
    · rename_i found
      have next := ok.create backed found
      split at taken <;> cases taken
      · rename_i zero
        rw [if_pos zero] at next
        exact next
      · rename_i granted
        rw [if_neg granted] at next
        exact next
    · cases taken
  | publish =>
    simp only [exec] at taken
    split at taken
    · rename_i found
      cases taken
      exact ok.publish found
    · cases taken
  | stock _ _ _ batch =>
    simp only [exec] at taken
    split at taken
    · rename_i found
      cases batch with
      | nil => cases taken
      | cons =>
        cases taken
        exact ok.stock found.1 found.2
    · cases taken
  | surplus =>
    simp only [exec] at taken
    split at taken
    · rename_i found
      cases taken
      exact ok.surplus found
    · cases taken
  | kfree ptr pageWord headerWord =>
    cases taken
    by_cases live : Live s ptr
    · exact ok.kfree_live live pageWord headerWord
    · exact ok.caught ((ok.kfree_dead calm live pageWord headerWord).mpr seen)
  | trim =>
    simp only [exec, Option.some.injEq] at taken
    rw [← taken]
    exact ok.trim
  | pageFree =>
    simp only [exec] at taken
    split at taken
    · rename_i found
      cases taken
      exact ok.pageFree found
    · cases taken
  | other =>
    simp only [exec] at taken
    split at taken
    · rename_i foreign
      obtain ⟨_, moved, rfl⟩ := map_eq_some_iff.mp taken
      exact ok.other foreign moved range
    · cases taken

theorem pages_apart {one two : Nat} (before : one < two) (alignedOne : pageSize ∣ one)
    (alignedTwo : pageSize ∣ two) : one + pageSize ≤ two := by
  simp only [pageSize] at *
  omega

theorem SlabsOk.slots_apart {slabs : Slabs} {hand : Nat → Prop} (ok : SlabsOk slabs hand)
    {one two : Obj} {c d : Nat} (first : SlotOf slabs c one.addr) (second : SlotOf slabs d two.addr)
    (fitsOne : one.size ≤ classSize c) (fitsTwo : two.size ≤ classSize d)
    (different : one.addr ≠ two.addr) : Apart one two := by
  obtain ⟨virt, p, idx, was, rfl, below, _, same⟩ := first
  obtain ⟨virt', q, idx', was', rfl, below', _, same'⟩ := second
  have inOne := (ok.ok virt p was).slot_in_page below virt
  have inTwo := (ok.ok virt' q was').slot_in_page below' virt'
  unfold Apart
  rcases Nat.lt_trichotomy virt virt' with before | page | after
  · have gap := pages_apart before (ok.placed virt p was).1 (ok.placed virt' q was').1
    omega
  · subst page
    cases was.symm.trans was'
    rcases Nat.lt_trichotomy idx idx' with low | equal | high
    · have gap := slotStart_apart virt p low
      omega
    · subst equal
      exact absurd (same.trans same'.symm) different
    · have gap := slotStart_apart virt p high
      omega
  · have gap := pages_apart after (ok.placed virt' q was').1 (ok.placed virt p was).1
    omega

theorem HeapOk.live_inside (ok : HeapOk s) (held : obj ∈ s.live) :
    ∃ virt p, s.slabs.page virt = some p ∧
    virt + slotsOffset p ≤ obj.addr ∧ obj.addr + obj.size ≤ virt + pageSize := by
  obtain ⟨cls, ⟨virt, p, idx, was, rfl, below, _, same⟩, fits⟩ := ok.classed.live obj held
  have inside := (ok.slabs.ok virt p was).slot_in_page below virt
  exact ⟨virt, p, was, by omega, by omega⟩

theorem HeapOk.ranges (ok : HeapOk s) {one two : Range} (first : one ∈ s.kva.live)
    (second : two ∈ s.kva.live) (different : one ≠ two) :
    one.virt + one.pages * pageSize ≤ two.virt ∨ two.virt + two.pages * pageSize ≤ one.virt :=
  ranges_ordered (live_placed ok.mapped.inv first).2.1
    (live_placed ok.mapped.inv second).2.1 (ok.mapped.inv.live one first)
    (ok.mapped.inv.live two second) (live_disjoint ok.mapped.inv first second different)

theorem HeapOk.objects_apart (ok : HeapOk s) : (objects s).Pairwise Apart := by
  refine pairwise_append.mpr ⟨?_, ?_, ?_⟩
  · have distinct := pairwise_map.mp (nodup_append.mp ok.placed.nodup).1
    refine distinct.imp_of_mem fun {one two} first second different => ?_
    obtain ⟨_, slotOne, fitsOne⟩ := ok.classed.live one first
    obtain ⟨_, slotTwo, fitsTwo⟩ := ok.classed.live two second
    exact ok.slabs.slots_apart slotOne slotTwo fitsOne fitsTwo different
  · have distinct := pairwise_map.mp ok.mapped.nodup
    refine pairwise_map.mpr (distinct.imp_of_mem ?_)
    intro one two first second different
    have order := ok.ranges (ok.mapped.range one first) (ok.mapped.range two second) (fun same =>
        different (congrArg Range.virt same))
    have roomOne := ok.mapped.room one first
    have roomTwo := ok.mapped.room two second
    simp only [Apart, Large.addr] at *
    omega
  · intro obj held other inside
    obtain ⟨l, largeHeld, rfl⟩ := mem_map.mp inside
    obtain ⟨virt, p, was, low, high⟩ := ok.live_inside held
    have its : classOf s.slabs virt = some p.classIdx := classOf_eq_some.mpr ⟨p, was, rfl⟩
    have order := ok.ranges (ok.mapped.slab virt _ its) (ok.mapped.range l largeHeld) (by
        intro same
        rw [show virt = l.virt from congrArg Range.virt same, ok.mapped.apart l largeHeld] at its
        cases its)
    have room := ok.mapped.room l largeHeld
    simp only [Apart, Large.addr] at *
    omega

theorem HeapOk.slabContract (ok : HeapOk s) : SlabContract s where
  counts virt p was := (ok.slabs.ok virt p was).count
  listed virt p was loose := by
    rw [ok.slabs.partialMem, ← ok.slabs.listed virt p was loose]
    constructor
    · rintro ⟨_, found, _, on⟩
      cases was.symm.trans found
      exact on
    · exact fun on => ⟨p, was, rfl, on⟩
  found cls virt slabs picked := by
    obtain ⟨slabsOk, ⟨p, was, _, on⟩, _⟩ := pickCachedPage_spec ok.slabs picked
    obtain ⟨_, _, search, _⟩ := claimOn_spec slabsOk was on
    exact ⟨p, was, by rw [search]; rfl⟩
  disjoint := ok.objects_apart
  inside obj held := ok.live_inside held
  insideLarge := ok.mapped.room

theorem FreesLive.seen (live : FreesLive s label) : FreesSeen s label := by
  cases label with
  | kfree => exact live.imp id .inl
  | _ => trivial

/-- What the heap may be asked for every section of a run. -/
def Fitting (s : State) (label : Label) : Prop :=
  SizeFits label ∧ RangeFits s label ∧ FreesSeen s label

theorem HeapOk.of_run {labels : List Label}
    (run : Steps (Guarded Kheap.step Fitting) Kheap.initial labels s) : HeapOk s :=
  run.invariant (fun _ _ _ ok next => ok.step next.1 next.2.1 next.2.2.1 next.2.2.2) HeapOk.initial

theorem exec_one_side (taken : exec s label = some s') : s'.live = s.live ∨ s'.large = s.large := by
  cases label with
  | kmalloc =>
    simp only [exec] at taken
    split at taken
    · cases taken
    · obtain ⟨_, _, taken⟩ := bind_eq_some_iff.mp taken
      split at taken <;> cases taken <;> exact .inr rfl
  | kmallocLarge =>
    simp only [exec] at taken
    split at taken
    · cases taken
    · split at taken <;> cases taken <;> exact .inl rfl
  | create =>
    simp only [exec, ite_none_right_eq_some] at taken
    split at taken <;> cases taken.2 <;> exact .inl rfl
  | publish =>
    simp only [exec, ite_none_right_eq_some] at taken
    cases taken.2
    exact .inr rfl
  | stock _ _ _ batch =>
    simp only [exec, ite_none_right_eq_some] at taken
    cases batch with
    | nil => cases taken.2
    | cons =>
      cases taken.2
      exact .inr rfl
  | kfree ptr _ headerWord =>
    have byHeader : (freeByHeader s ptr headerWord).live = s.live := by
      unfold freeByHeader
      split
      · rfl
      split
      · rfl
      · split <;> rfl
    cases taken
    unfold kfree
    split
    · exact .inl rfl
    split
    · exact .inr rfl
    split
    · exact .inl byHeader
    split
    · exact .inl rfl
    split
    · exact .inl rfl
    · exact .inl byHeader
  | trim =>
    simp only [exec, Option.some.injEq] at taken
    rw [← taken]
    exact .inl rfl
  | batch | surplus | pageFree =>
    simp only [exec, ite_none_right_eq_some] at taken
    cases taken.2
    exact .inl rfl
  | other =>
    simp only [exec, ite_none_right_eq_some] at taken
    obtain ⟨_, _, rfl⟩ := map_eq_some_iff.mp taken.2
    exact .inl rfl

theorem HeapOk.addr_ne (ok : HeapOk s) (held : obj ∈ s.live)
    (large : l ∈ s.large) : obj.addr ≠ l.addr := by
  intro same
  have slab := ok.page_of_live held
  rw [same, ok.page_of_large large, classOf_eq_none.mp (ok.mapped.apart l large)] at slab
  cases slab

theorem HeapOk.fresh (ok : HeapOk s') (taken : exec s label = some s')
    (grown : s'.live = obj :: s.live) : ¬ Live s obj.addr := by
  have large : s'.large = s.large := by
    refine (exec_one_side taken).resolve_left fun same => ?_
    exact cons_ne_self obj s.live (grown.symm.trans same)
  have mine : obj ∈ s'.live := grown ▸ mem_cons_self ..
  rintro (⟨_, held, same⟩ | ⟨_, held, same⟩)
  · have distinct := (nodup_append.mp ok.placed.nodup).1
    rw [grown] at distinct
    refine (nodup_cons.mp distinct).1 ?_
    rw [← same]
    exact mem_map_of_mem held
  · exact ok.addr_ne mine (large.symm ▸ held) same.symm

theorem HeapOk.freshLarge (ok : HeapOk s') (taken : exec s label = some s')
    (grown : s'.large = l :: s.large) : ¬ Live s l.addr := by
  have live : s'.live = s.live := by
    refine (exec_one_side taken).resolve_right fun same => ?_
    exact cons_ne_self l s.large (grown.symm.trans same)
  have mine : l ∈ s'.large := grown ▸ mem_cons_self ..
  rintro (⟨_, held, same⟩ | ⟨_, held, same⟩)
  · exact ok.addr_ne (live.symm ▸ held) mine same
  have distinct := ok.mapped.nodup
  rw [grown] at distinct
  refine (nodup_cons.mp distinct).1 ?_
  rw [← add_right_cancel same]
  exact mem_map_of_mem held

/-! ### The contracts -/

/-- The sections of a heap that is not wild, where a test passes. -/
def calmly (check : State → Label → Bool) : State → Label → Option State :=
  checked exec fun s label => !s.wild && check s label

theorem runs_of_followed {check : State → Label → Bool} {condition : State → Label → Prop}
    (sound : ∀ {s label}, check s label = true → condition s label) {labels : List Label}
    {View : Type} {view : State → View} {seen : View}
    (followed : (followRun (calmly check) initial labels).map view = some seen) :
    ∃ s, Steps (Guarded step condition) initial labels s ∧ view s = seen := by
  have both : ∀ {s label}, (!s.wild && check s label) = true →
      s.wild = false ∧ condition s label := by
    intro s label passed
    simp only [Bool.and_eq_true, Bool.not_eq_true'] at passed
    exact ⟨passed.1, sound passed.2⟩
  obtain ⟨s, run, held⟩ := Steps.guarded_of_followed both followed
  exact ⟨s, run.mono fun _ _ _ next => ⟨⟨next.2.1, next.1⟩, next.2.2⟩, held⟩

/-- A test for the sizes of a section, and for the pointer that it frees. -/
def fitsBy (frees : State → Nat → Bool) (s : State) : Label → Bool
  | .kmallocLarge size _ =>
    decide (size + largeHeaderSize ≤ wordSize ∧
      s.kva.pool.bump + largePages size * pageSize < wordSize)
  | .other action => decide (Kpages.NoWrap s.kva action)
  | .kfree ptr _ _ => frees s ptr
  | _ => true

theorem fitsBy_sound {frees : State → Nat → Bool} (passed : fitsBy frees s label = true) :
    SizeFits label ∧ RangeFits s label ∧
      ∀ ptr pageWord headerWord, label = .kfree ptr pageWord headerWord → frees s ptr = true := by
  cases label with
  | kmallocLarge => exact ⟨(of_decide_eq_true passed).1, (of_decide_eq_true passed).2, nofun⟩
  | other action =>
    have inWord : Kpages.NoWrap s.kva action := of_decide_eq_true passed
    exact ⟨trivial, inWord, nofun⟩
  | kfree =>
    refine ⟨trivial, trivial, ?_⟩
    rintro _ _ _ ⟨⟩
    exact passed
  | _ => exact ⟨trivial, trivial, nofun⟩

/-- A pointer is that of a small live object. -/
def heldSmall (s : State) (ptr : Nat) : Bool :=
  s.live.any fun obj => obj.addr == ptr

theorem heldSmall_live (held : heldSmall s ptr = true) : Live s ptr := by
  obtain ⟨obj, inside, same⟩ := any_eq_true.mp held
  exact .inl ⟨obj, inside, beq_iff_eq.mp same⟩

theorem fitsBy_live (passed : fitsBy heldSmall s label = true) :
    SizeFits label ∧ RangeFits s label ∧ FreesLive s label := by
  obtain ⟨fits, range, frees⟩ := fitsBy_sound passed
  refine ⟨fits, range, ?_⟩
  cases label with
  | kfree => exact .inr (heldSmall_live (frees _ _ _ rfl))
  | _ => trivial

/-- The slots of the first slab page of 16-byte objects. -/
def slot16 (idx : Nat) : Nat := Kpages.kheapVbase + 52 + idx * 16

/-- A batch of consecutive slots, the last one first. -/
def batch16 (first count : Nat) : List Nat :=
  ((List.range count).map fun i => slot16 (first + i)).reverse

/-- In every run whose large sizes and page ranges fit the address space and
that frees only live pointers, the heap keeps the slab contract. -/
theorem slab_invariant {labels : List Label} (run : Steps (Guarded step fun s label =>
      SizeFits label ∧ RangeFits s label ∧ FreesLive s label)
      initial labels s) : SlabContract s := by
  have ok : HeapOk s := run.invariant
    (fun _ _ _ ok next => ok.step next.1 next.2.1 next.2.2.1 next.2.2.2.seen) HeapOk.initial
  exact ok.slabContract

/-- Small objects from a new page and from a batch, a large object, a free and a
trim. -/
def mixedRequests : List Label :=
  [.kmalloc 0 16, .batch 0 16, .create 0 16 true,
    .publish 0 16 Kpages.kheapVbase, .kmallocLarge 3000 true, .kmalloc 0 10,
    .batch 0 10, .stock 0 0 10 (batch16 1 9), .kfree (slot16 0) none none, .trim]

theorem slab_invariant_mixedRequests : ∃ s, Steps (Guarded step fun s label =>
        SizeFits label ∧ RangeFits s label ∧ FreesLive s label) initial mixedRequests s ∧
      objects s = [⟨slot16 9, 10⟩, ⟨Kpages.kheapVbase + 4104, 3000⟩] ∧ SlabContract s := by
  have followed : (followRun (calmly (fitsBy heldSmall)) initial mixedRequests).map objects =
      some [⟨slot16 9, 10⟩, ⟨Kpages.kheapVbase + 4104, 3000⟩] := by
    decide +kernel
  obtain ⟨s, steps, held⟩ := runs_of_followed fitsBy_live followed
  exact ⟨s, steps, held, slab_invariant steps⟩

theorem wrapped_request : ∃ s, Steps (Guarded step FreesLive) initial
      [.kmallocLarge 0xFFFFFFFF true] s ∧ s.large = [⟨Kpages.kheapVbase, 1, 0xFFFFFFFF⟩] := by
  have followed : (followRun (calmly fun _ label => decide (label = .kmallocLarge 0xFFFFFFFF true))
      initial [.kmallocLarge 0xFFFFFFFF true]).map State.large =
      some [⟨Kpages.kheapVbase, 1, 0xFFFFFFFF⟩] := by
    decide +kernel
  refine runs_of_followed (fun {s label} passed => ?_) followed
  cases of_decide_eq_true passed
  trivial

/-- A size of 4 GiB less one wraps to one page. -/
theorem slab_invariant_wraps :
    ¬ ∀ labels s, Steps (Guarded step FreesLive) initial labels s → SlabContract s := by
  intro claimed
  obtain ⟨s, steps, held⟩ := wrapped_request
  have inside := (claimed _ s steps).insideLarge
    ⟨Kpages.kheapVbase, 1, 0xFFFFFFFF⟩ (by rw [held]; exact .head _)
  revert inside
  decide

/-- In every run whose sizes fit and whose frees are seen, a free of a dead
pointer is caught exactly when it is seen, and no object is returned at the
address of a live one. -/
theorem frees_caught {labels : List Label} (run : Steps (Guarded step Fitting) initial labels s) :
    (∀ label s', Guarded step Fitting s label s' → FreeContract s label s') ∧
      ∀ ptr pageWord headerWord s', ¬ Live s ptr → step s (.kfree ptr pageWord headerWord) s' →
        (Caught s ptr s' ↔ FreesSeen s (.kfree ptr pageWord headerWord)) := by
  have ok := HeapOk.of_run run
  constructor
  · rintro _ _ ⟨taken, fits, range, seen⟩
    have next := ok.step taken fits range seen
    constructor
    case caught =>
      rintro ptr pageWord headerWord rfl dead
      cases taken.2
      exact (ok.kfree_dead taken.1 dead pageWord headerWord).mpr seen
    case fresh => exact fun obj grown => next.fresh taken.2 grown
    case freshLarge => exact fun l grown => next.freshLarge taken.2 grown
  · intro ptr pageWord headerWord s' dead taken
    cases taken.2
    exact ok.kfree_dead taken.1 dead pageWord headerWord

/-- A pointer is live, or lies in a slab page and is not idle. -/
def heldOrBusy (s : State) (ptr : Nat) : Bool :=
  heldSmall s ptr || (s.slabs.page (pageBase ptr)).isSome && !(idleSlots s).contains ptr

/-- A second free right after the first, and a free of an address inside an
object. -/
def secondFree : List Label :=
  [.kmalloc 0 16, .batch 0 16, .create 0 16 true,
    .publish 0 16 Kpages.kheapVbase, .kmalloc 0 16, .batch 0 16, .stock 0 0 16 (batch16 1 9),
    .kfree (slot16 0) none none, .kfree (slot16 0) none none, .kfree (slot16 9 + 4) none none]

theorem frees_caught_secondFree : ∃ s, Steps (Guarded step Fitting) initial secondFree s ∧
      s.live = [⟨slot16 9, 16⟩] ∧ s.slabs.doubleFreeCaught = 2 ∧
      ∀ label s', Guarded step Fitting s label s' → FreeContract s label s' := by
  have followed : (followRun (calmly (fitsBy heldOrBusy)) initial secondFree).map
      (fun s => (s.live, s.slabs.doubleFreeCaught)) = some ([⟨slot16 9, 16⟩], 2) := by
    decide +kernel
  have sound : ∀ {s label}, fitsBy heldOrBusy s label = true → Fitting s label := by
    intro s label passed
    obtain ⟨fits, range, frees⟩ := fitsBy_sound passed
    refine ⟨fits, range, ?_⟩
    cases label with
    | kfree =>
      have seen := frees _ _ _ rfl
      simp only [heldOrBusy, Bool.or_eq_true, Bool.and_eq_true,
        Bool.not_eq_true', contains_eq_mem, decide_eq_false_iff_not]
        at seen
      rcases seen with live | busy
      · exact .inr (.inl (heldSmall_live live))
      · exact .inr (.inr (.inl busy))
    | _ => trivial
  obtain ⟨s, steps, held⟩ := runs_of_followed sound followed
  exact ⟨s, steps, congrArg Prod.fst held, congrArg Prod.snd held, (frees_caught steps).1⟩

/-- CPU 0 frees a slot, CPU 1 claims it into its cache, and CPU 0 frees it
again: the bit is set, so the free is accepted. -/
def staleFree : List Label :=
  [.kmalloc 0 16, .batch 0 16, .create 0 16 true,
    .publish 0 16 Kpages.kheapVbase, .kmalloc 0 16, .batch 0 16, .stock 0 0 16 (batch16 1 9),
    .kfree (slot16 9) none none, .kmalloc 1 16, .batch 0 16, .stock 1 0 16 (batch16 9 9)]

/-- CPU 1 takes the slot from its cache, and CPU 2 claims it from the bitmap. -/
def staleReuse : List Label :=
  staleFree ++ [.kfree (slot16 9) none none, .kmalloc 1 16, .kmalloc 2 16,
    .batch 0 16, .stock 2 0 16 (batch16 18 8 ++ [slot16 9])]

/-- The stale free is accepted, and later a live address is returned. -/
theorem frees_caught_stale : (¬ ∀ labels s, Steps (Guarded step fun s label =>
        SizeFits label ∧ RangeFits s label) initial labels s →
      ∀ ptr pageWord headerWord s', ¬ Live s ptr →
        step s (.kfree ptr pageWord headerWord) s' → Caught s ptr s') ∧ ¬ ∀ labels s, Steps
    (Guarded step fun s label => SizeFits label ∧ RangeFits s label) initial labels s →
      ∀ label s' obj, step s label s' → s'.live = obj :: s.live → ¬ Live s obj.addr := by
  have sound : ∀ {s label}, fitsBy (fun _ _ => true) s label = true →
      SizeFits label ∧ RangeFits s label := fun passed =>
    ⟨(fitsBy_sound passed).1, (fitsBy_sound passed).2.1⟩
  constructor
  · intro claimed
    have followed : (followRun (calmly (fitsBy fun _ _ => true)) initial staleFree).map (fun s =>
          (s.wild, heldSmall s (slot16 9), s.large,
            (s.slabs.page Kpages.kheapVbase).map SlabPage.freeCount,
            ((kfree s (slot16 9) none none).slabs.page Kpages.kheapVbase).map SlabPage.freeCount)) =
        some (false, false, [], some 234, some 235) := by
      decide +kernel
    obtain ⟨s, run, seen⟩ := runs_of_followed sound followed
    simp only [Prod.mk.injEq] at seen
    obtain ⟨calm, unheld, noLarge, before, after⟩ := seen
    have dead : ¬ Live s (slot16 9) := by
      rintro (⟨obj, inside, same⟩ | ⟨_, inside, _⟩)
      · have held : heldSmall s (slot16 9) = true :=
          any_eq_true.mpr ⟨obj, inside, beq_iff_eq.mpr same⟩
        rw [unheld] at held
        cases held
      · rw [noLarge] at inside
        cases inside
    have kept : (kfree s (slot16 9) none none).slabs.page = s.slabs.page := by
      rcases claimed staleFree s run (slot16 9) none none _ dead ⟨calm, rfl⟩ with ⟨null, _⟩ | same | same
      · exact absurd null (by decide)
      · rw [same]
        rfl
      · rw [same]
    rw [kept, before] at after
    cases after
  · intro claimed
    have followed : (followRun (calmly (fitsBy fun _ _ => true)) initial staleReuse).map (fun s =>
          (s.wild, heldSmall s (slot16 9), decide ((exec s (.kmalloc 2 16)).map State.live =
              some (⟨slot16 9, 16⟩ :: s.live)))) =
        some (false, true, true) := by
      decide +kernel
    obtain ⟨s, run, seen⟩ := runs_of_followed sound followed
    simp only [Prod.mk.injEq, decide_eq_true_eq] at seen
    obtain ⟨calm, held, returned⟩ := seen
    obtain ⟨s', taken, grown⟩ := map_eq_some_iff.mp returned
    exact claimed staleReuse s run (.kmalloc 2 16) s' ⟨slot16 9, 16⟩ ⟨calm, taken⟩ grown
      (heldSmall_live held)

end Runs

end MainDob.Kernel.Kheap
