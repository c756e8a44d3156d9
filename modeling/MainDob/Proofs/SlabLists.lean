/-
Purpose: The slab pages and the lists of their classes. One lemma says what a change of one page
  may do to the lists; the operations of the slab lock are cases of it.
Main exports: SlotOf, SlabsOk, SlabsOk.relist
-/
import MainDob.Proofs.SlabPages

namespace MainDob.Kernel.Kheap

open Function (update update_of_ne update_self update_eq_self update_idem)
open Kpages (pageSize wordSize)
open List

/-- The address is a taken slot of a page of the class. -/
def SlotOf (s : Slabs) (cls addr : Nat) : Prop :=
  ∃ virt p idx, s.page virt = some p ∧ p.classIdx = cls ∧
    idx < p.totalSlots ∧ slotTaken p idx = true ∧ addr = slotStart virt p idx

/-- The slab pages and their lists are in order, apart from the pages that a
call has in `hand`: those are on no list and have every slot free. -/
structure SlabsOk (s : Slabs) (hand : Nat → Prop) : Prop where
  ok : ∀ virt p, s.page virt = some p → PageOk p
  placed : ∀ virt p, s.page virt = some p → pageSize ∣ virt ∧ virt + pageSize ≤ wordSize
  partialNodup : ∀ cls, (s.partials cls).Nodup
  partialMem : ∀ cls virt, virt ∈ s.partials cls ↔
    ∃ p, s.page virt = some p ∧ p.classIdx = cls ∧ p.inPartial = true
  emptyNodup : ∀ cls, (s.empties cls).Nodup
  emptyMem : ∀ cls virt, virt ∈ s.empties cls → ∃ p, s.page virt = some p ∧
    p.classIdx = cls ∧ p.inPartial = false ∧ p.freeCount = p.totalSlots ∧ ¬ hand virt
  emptyN : ∀ cls, s.emptyN cls = (s.empties cls).length
  listed : ∀ virt p, s.page virt = some p → ¬ hand virt →
    (p.inPartial = true ↔ 0 < p.freeCount ∧ virt ∉ s.empties p.classIdx)
  held : ∀ virt, hand virt → ∃ p, s.page virt = some p ∧
    p.inPartial = false ∧ p.freeCount = p.totalSlots

/-- What `s'` is to `s` when only one page has changed, with the lists of its
class; `parked` says that it is on the empty list. -/
structure Relisted (s s' : Slabs) (virt : Nat) (new : SlabPage)
    (parked : Prop) : Prop where
  page : s'.page = update s.page virt (some new)
  partialsOther : ∀ cls, cls ≠ new.classIdx → s'.partials cls = s.partials cls
  partialsNodup : (s'.partials new.classIdx).Nodup
  partialsSelf : virt ∈ s'.partials new.classIdx ↔ new.inPartial = true
  partialsRest : ∀ other, other ≠ virt →
    (other ∈ s'.partials new.classIdx ↔ other ∈ s.partials new.classIdx)
  emptiesOther : ∀ cls, cls ≠ new.classIdx → s'.empties cls = s.empties cls
  emptiesNodup : (s'.empties new.classIdx).Nodup
  emptiesSelf : virt ∈ s'.empties new.classIdx ↔ parked
  emptiesRest : ∀ other, other ≠ virt →
    (other ∈ s'.empties new.classIdx ↔ other ∈ s.empties new.classIdx)
  emptyNOther : ∀ cls, cls ≠ new.classIdx → s'.emptyN cls = s.emptyN cls
  emptyNSelf : s'.emptyN new.classIdx = (s'.empties new.classIdx).length

section Relist

variable {s s' : Slabs} {hand hand' : Nat → Prop} {virt : Nat} {old new : SlabPage} {parked : Prop}

section

variable (relisted : Relisted s s' virt new parked)
include relisted

theorem Relisted.page_self : s'.page virt = some new := by
  rw [relisted.page]
  exact update_self ..

theorem Relisted.page_other
    {other : Nat} (apart : other ≠ virt) : s'.page other = s.page other := by
  rw [relisted.page]
  exact update_of_ne apart ..

theorem Relisted.mem_partials {cls other : Nat}
    (apart : other ≠ virt) : other ∈ s'.partials cls ↔ other ∈ s.partials cls := by
  by_cases same : cls = new.classIdx
  · rw [same]
    exact relisted.partialsRest other apart
  · rw [relisted.partialsOther cls same]

theorem Relisted.mem_empties {cls other : Nat}
    (apart : other ≠ virt) : other ∈ s'.empties cls ↔ other ∈ s.empties cls := by
  by_cases same : cls = new.classIdx
  · rw [same]
    exact relisted.emptiesRest other apart
  · rw [relisted.emptiesOther cls same]

end

/-- A change of one page keeps the lists in order when the page is where its
new count says. -/
theorem SlabsOk.relist (ok : SlabsOk s hand) (was : s.page virt = some old)
    (relisted : Relisted s s' virt new parked) (sameClass : new.classIdx = old.classIdx)
    (pageOk : PageOk new) (others : ∀ other, other ≠ virt → (hand' other ↔ hand other))
    (status : ¬ hand' virt → (new.inPartial = true ↔ 0 < new.freeCount ∧ ¬ parked)) (park : parked →
    new.inPartial = false ∧ new.freeCount = new.totalSlots ∧ ¬ hand' virt) (inHand : hand' virt →
    new.inPartial = false ∧ new.freeCount = new.totalSlots) : SlabsOk s' hand' := by
  have self := relisted.page_self
  -- the page is on no list of a class that is not its own
  have foreignPartial : ∀ cls, cls ≠ new.classIdx → virt ∉ s.partials cls := by
    intro cls other inside
    obtain ⟨_, found, its, _⟩ := (ok.partialMem cls virt).mp inside
    cases was.symm.trans found
    exact other (its.symm.trans sameClass.symm)
  have foreignEmpty : ∀ cls, cls ≠ new.classIdx → virt ∉ s.empties cls := by
    intro cls other inside
    obtain ⟨_, found, its, _⟩ := ok.emptyMem cls virt inside
    cases was.symm.trans found
    exact other (its.symm.trans sameClass.symm)
  constructor
  case ok =>
    intro other p found
    by_cases same : other = virt
    · subst same
      cases self.symm.trans found
      exact pageOk
    · rw [relisted.page_other same] at found
      exact ok.ok other p found
  case placed =>
    intro other p found
    by_cases same : other = virt
    · subst same
      exact ok.placed other old was
    · rw [relisted.page_other same] at found
      exact ok.placed other p found
  case partialNodup =>
    intro cls
    by_cases same : cls = new.classIdx
    · exact same ▸ relisted.partialsNodup
    · rw [relisted.partialsOther cls same]
      exact ok.partialNodup cls
  case partialMem =>
    intro cls other
    by_cases same : other = virt
    · subst same
      simp only [self, Option.some.injEq, exists_eq_left']
      by_cases its : new.classIdx = cls
      · rw [← its, relisted.partialsSelf]
        simp
      · rw [relisted.partialsOther cls (Ne.symm its)]
        exact iff_of_false (foreignPartial cls (Ne.symm its)) fun both => its both.1
    · rw [relisted.mem_partials same, relisted.page_other same]
      exact ok.partialMem cls other
  case emptyNodup =>
    intro cls
    by_cases same : cls = new.classIdx
    · exact same ▸ relisted.emptiesNodup
    · rw [relisted.emptiesOther cls same]
      exact ok.emptyNodup cls
  case emptyMem =>
    intro cls other inside
    by_cases same : other = virt
    · subst same
      by_cases its : cls = new.classIdx
      · subst its
        obtain ⟨off, full, free⟩ := park (relisted.emptiesSelf.mp inside)
        exact ⟨new, self, rfl, off, full, free⟩
      · rw [relisted.emptiesOther cls its] at inside
        exact absurd inside (foreignEmpty cls its)
    · rw [relisted.mem_empties same] at inside
      obtain ⟨p, found, its, off, full, free⟩ := ok.emptyMem cls other inside
      exact ⟨p, (relisted.page_other same).trans found, its, off, full,
        fun holds => free ((others other same).mp holds)⟩
  case emptyN =>
    intro cls
    by_cases same : cls = new.classIdx
    · rw [same, relisted.emptyNSelf]
    · rw [relisted.emptyNOther cls same, relisted.emptiesOther cls same]
      exact ok.emptyN cls
  case listed =>
    intro other p found free
    by_cases same : other = virt
    · subst same
      cases self.symm.trans found
      rw [relisted.emptiesSelf]
      exact status free
    · rw [relisted.page_other same] at found
      rw [relisted.mem_empties same]
      exact ok.listed other p found fun holds => free ((others other same).mpr holds)
  case held =>
    intro other holds
    by_cases same : other = virt
    · subst same
      exact ⟨new, self, inHand holds⟩
    · rw [relisted.page_other same]
      exact ok.held other ((others other same).mp holds)

theorem Relisted.slotOf (relisted : Relisted s s' virt new parked) (was : s.page virt = some old)
    (sameClass : new.classIdx = old.classIdx) (sameTotal : new.totalSlots = old.totalSlots)
    (cls addr : Nat) : SlotOf s' cls addr ↔ (old.classIdx = cls ∧ ∃ idx < old.totalSlots,
        slotTaken new idx = true ∧ addr = slotStart virt old idx) ∨
      ∃ other p idx, other ≠ virt ∧ s.page other = some p ∧ p.classIdx = cls ∧
        idx < p.totalSlots ∧ slotTaken p idx = true ∧ addr = slotStart other p idx := by
  have start : ∀ idx, slotStart virt new idx = slotStart virt old idx := by
    intro idx
    simp only [slotStart, slotsOffset, bitmapWords, sameClass, sameTotal]
  constructor
  · rintro ⟨other, p, idx, found, its, below, taken, rfl⟩
    by_cases same : other = virt
    · subst same
      cases relisted.page_self.symm.trans found
      exact .inl ⟨sameClass.symm.trans its, idx, sameTotal ▸ below, taken, start idx⟩
    · rw [relisted.page_other same] at found
      exact .inr ⟨other, p, idx, same, found, its, below, taken, rfl⟩
  · rintro (⟨its, idx, below, taken, rfl⟩ | ⟨other, p, idx, same, found, its, below, taken, rfl⟩)
    · exact ⟨virt, new, idx, relisted.page_self, sameClass.trans its,
        sameTotal ▸ below, taken, (start idx).symm⟩
    · exact ⟨other, p, idx, (relisted.page_other same).trans found, its, below, taken, rfl⟩

end Relist

/-! ### Changes of one page -/

/-- A page and the lists of its class, as far as the page goes. -/
structure At (s : Slabs) (virt : Nat) (p : SlabPage) : Prop where
  page : s.page virt = some p
  partialNodup : (s.partials p.classIdx).Nodup
  partialSelf : virt ∈ s.partials p.classIdx ↔ p.inPartial = true
  emptyNodup : (s.empties p.classIdx).Nodup
  emptyN : s.emptyN p.classIdx = (s.empties p.classIdx).length

theorem SlabsOk.at_ {s : Slabs} {hand : Nat → Prop} {virt : Nat} {p : SlabPage}
    (ok : SlabsOk s hand) (was : s.page virt = some p) : At s virt p where
  page := was
  partialNodup := ok.partialNodup _
  partialSelf := by
    rw [ok.partialMem]
    simp [was]
  emptyNodup := ok.emptyNodup _
  emptyN := ok.emptyN _

section Changes

variable {s one two : Slabs} {virt : Nat} {p first second : SlabPage} {parkedOne parkedTwo : Prop}

theorem Relisted.at_ (relisted : Relisted s one virt first parkedOne) : At one virt first where
  page := relisted.page_self
  partialNodup := relisted.partialsNodup
  partialSelf := relisted.partialsSelf
  emptyNodup := relisted.emptiesNodup
  emptyN := relisted.emptyNSelf

theorem Relisted.trans (before : Relisted s one virt first parkedOne)
    (after : Relisted one two virt second parkedTwo)
    (sameClass : second.classIdx = first.classIdx) : Relisted s two virt second parkedTwo where
  page := by rw [after.page, before.page, update_idem]
  partialsOther cls other := (after.partialsOther cls other).trans
    (before.partialsOther cls (sameClass ▸ other))
  partialsNodup := after.partialsNodup
  partialsSelf := after.partialsSelf
  partialsRest other apart := (after.partialsRest other apart).trans (before.mem_partials apart)
  emptiesOther cls other := (after.emptiesOther cls other).trans
    (before.emptiesOther cls (sameClass ▸ other))
  emptiesNodup := after.emptiesNodup
  emptiesSelf := after.emptiesSelf
  emptiesRest other apart := (after.emptiesRest other apart).trans (before.mem_empties apart)
  emptyNOther cls other := (after.emptyNOther cls other).trans
    (before.emptyNOther cls (sameClass ▸ other))
  emptyNSelf := after.emptyNSelf

theorem At.setPage (here : At s virt p) (sameClass : first.classIdx = p.classIdx)
    (sameFlag : first.inPartial = p.inPartial) :
    Relisted s (s.setPage virt first) virt first (virt ∈ s.empties p.classIdx) where
  page := rfl
  partialsOther _ _ := rfl
  partialsNodup := sameClass ▸ here.partialNodup
  partialsSelf := by
    rw [sameClass, sameFlag]
    exact here.partialSelf
  partialsRest _ _ := Iff.rfl
  emptiesOther _ _ := rfl
  emptiesNodup := sameClass ▸ here.emptyNodup
  emptiesSelf := by
    rw [sameClass]
    exact Iff.rfl
  emptiesRest _ _ := Iff.rfl
  emptyNOther _ _ := rfl
  emptyNSelf := sameClass ▸ here.emptyN

theorem At.setPartials (here : At s virt p) (flag : Bool) {list : List Nat} (nodup : list.Nodup)
    (self : virt ∈ list ↔ flag = true)
    (rest : ∀ other, other ≠ virt → (other ∈ list ↔ other ∈ s.partials p.classIdx)) :
    Relisted s { s.setPage virt { p with inPartial := flag } with
      partials := update s.partials p.classIdx list } virt { p with inPartial := flag }
      (virt ∈ s.empties p.classIdx) where
  page := rfl
  partialsOther _ other := update_of_ne other ..
  partialsNodup := by simpa using nodup
  partialsSelf := by simpa using self
  partialsRest other apart := by simpa using rest other apart
  emptiesOther _ _ := rfl
  emptiesNodup := here.emptyNodup
  emptiesSelf := Iff.rfl
  emptiesRest _ _ := Iff.rfl
  emptyNOther _ _ := rfl
  emptyNSelf := here.emptyN

theorem At.partialPush (here : At s virt p) (off : p.inPartial = false) :
    Relisted s (partialPush s p.classIdx virt) virt { p with inPartial := true }
      (virt ∈ s.empties p.classIdx) := by
  have absent : virt ∉ s.partials p.classIdx := by
    rw [here.partialSelf, off]
    exact nofun
  rw [Kheap.partialPush, here.page]
  apply here.setPartials true (nodup_cons.mpr ⟨absent, here.partialNodup⟩)
  · simp
  · intro other apart
    simp [apart]

theorem At.partialRemove (here : At s virt p) (on : p.inPartial = true) :
    Relisted s (partialRemove s p.classIdx virt) virt
      { p with inPartial := false } (virt ∈ s.empties p.classIdx) := by
  rw [Kheap.partialRemove, here.page]
  simp only [on, if_true]
  apply here.setPartials false (here.partialNodup.erase virt)
  · simp [here.partialNodup.mem_erase_iff]
  · exact fun _ apart => mem_erase_of_ne apart

theorem At.setEmpties (here : At s virt p) {list : List Nat} (parked : Prop) (nodup : list.Nodup)
    (self : virt ∈ list ↔ parked)
    (rest : ∀ other, other ≠ virt → (other ∈ list ↔ other ∈ s.empties p.classIdx)) {count : Nat}
    (counted : count = list.length) :
    Relisted s { s with
      empties := update s.empties p.classIdx list
      emptyN := update s.emptyN p.classIdx count } virt p parked where
  page := by
    rw [← here.page, update_eq_self]
  partialsOther _ _ := rfl
  partialsNodup := here.partialNodup
  partialsSelf := here.partialSelf
  partialsRest _ _ := Iff.rfl
  emptiesOther _ other := update_of_ne other ..
  emptiesNodup := by simpa using nodup
  emptiesSelf := by simpa using self
  emptiesRest other apart := by simpa using rest other apart
  emptyNOther _ other := update_of_ne other ..
  emptyNSelf := by simpa using counted

theorem At.popEmpty {rest : List Nat} (here : At s virt p) (top : s.empties p.classIdx = virt ::
    rest) : Relisted s (popEmpty s p.classIdx rest) virt p False := by
  have distinct := here.emptyNodup
  rw [top, nodup_cons] at distinct
  apply here.setEmpties False distinct.2
  · exact iff_false_intro distinct.1
  · intro other apart
    simp [top, apart]
  · rw [here.emptyN, top, length_cons, Nat.add_sub_cancel]

/-- The list of empty pages with one more in front. -/
def pushEmpty (s : Slabs) (cls virt : Nat) : Slabs :=
  { s with
    empties := update s.empties cls (virt :: s.empties cls)
    emptyN := update s.emptyN cls (s.emptyN cls + 1) }

theorem At.pushEmpty (here : At s virt p) (absent : virt ∉ s.empties p.classIdx) :
    Relisted s (pushEmpty s p.classIdx virt) virt p True := by
  apply here.setEmpties True (nodup_cons.mpr ⟨absent, here.emptyNodup⟩)
  · exact iff_true_intro mem_cons_self
  · intro other apart
    simp [apart]
  · rw [here.emptyN, length_cons]

end Changes

/-! ### Slots of a heap in order -/

section Slots

variable {s s' : Slabs} {hand : Nat → Prop} {virt cls : Nat} {p : SlabPage}

section

variable (ok : SlabsOk s hand) (was : s.page virt = some p) {idx : Nat} (below : idx < p.totalSlots)
include ok was below

theorem SlabsOk.pageBase_slot : pageBase (slotStart virt p idx) = virt := by
  have inside := (ok.ok virt p was).slot_in_page below virt
  have positive := (ok.ok virt p was).fits.1
  exact pageBase_eq (ok.placed virt p was).1 (by omega) (by omega)

theorem SlabsOk.slotOf_start :
    SlotOf s cls (slotStart virt p idx) ↔ p.classIdx = cls ∧ slotTaken p idx = true := by
  constructor
  · rintro ⟨other, _, _, found, its, low, taken, same⟩
    have page : virt = other := by
      rw [← ok.pageBase_slot was below, ← ok.pageBase_slot found low, same]
    subst page
    cases was.symm.trans found
    cases (ok.ok virt p was).slotStart_inj same
    exact ⟨its, taken⟩
  · rintro ⟨its, taken⟩
    exact ⟨virt, p, idx, was, its, below, taken, rfl⟩

end

theorem Relisted.slotOf_same {new : SlabPage} {parked : Prop}
    (relisted : Relisted s s' virt new parked) (was : s.page virt = some p)
    (sameClass : new.classIdx = p.classIdx) (sameTotal : new.totalSlots = p.totalSlots)
    (sameBits : ∀ idx, slotTaken new idx = slotTaken p idx) (addr : Nat) :
    SlotOf s' cls addr ↔ SlotOf s cls addr := by
  rw [relisted.slotOf was sameClass sameTotal]
  constructor
  · rintro (⟨its, idx, below, taken, rfl⟩ | ⟨other, q, idx, _, found, its, below, taken, rfl⟩)
    · exact ⟨virt, p, idx, was, its, below, sameBits idx ▸ taken, rfl⟩
    · exact ⟨other, q, idx, found, its, below, taken, rfl⟩
  · rintro ⟨other, q, idx, found, its, below, taken, rfl⟩
    by_cases same : other = virt
    · subst same
      cases was.symm.trans found
      exact .inl ⟨its, idx, below, (sameBits idx).symm ▸ taken, rfl⟩
    · exact .inr ⟨other, q, idx, same, found, its, below, taken, rfl⟩

/-! ### Claiming -/

theorem pickCachedPage_spec (ok : SlabsOk s hand) (picked : pickCachedPage s cls = some
    (virt, s')) : SlabsOk s' hand ∧ (∃ p, s'.page virt = some p ∧
    p.classIdx = cls ∧ p.inPartial = true) ∧ ∀ c addr, SlotOf s' c addr ↔ SlotOf s c addr := by
  unfold pickCachedPage at picked
  cases list : s.partials cls with
  | cons head =>
    simp only [list, Option.some.injEq, Prod.mk.injEq] at picked
    obtain ⟨rfl, rfl⟩ := picked
    refine ⟨ok, (ok.partialMem cls head).mp ?_, fun _ _ => Iff.rfl⟩
    rw [list]
    exact mem_cons_self ..
  | nil =>
    cases stock : s.empties cls with
    | nil => simp [list, stock] at picked
    | cons head rest =>
      simp only [list, stock, Option.some.injEq, Prod.mk.injEq] at picked
      obtain ⟨rfl, rfl⟩ := picked
      obtain ⟨p, was, rfl, off, full, free⟩ := ok.emptyMem cls head (by
        rw [stock]
        exact mem_cons_self ..)
      have popped := (ok.at_ was).popEmpty stock
      have pushed := popped.trans (popped.at_.partialPush off) rfl
      have left : head ∉ (popEmpty s p.classIdx rest).empties p.classIdx := popped.emptiesSelf.mp
      refine ⟨?_, ⟨_, pushed.page_self, rfl, rfl⟩, ?_⟩
      · refine ok.relist was pushed rfl ?_ (fun _ _ => Iff.rfl) ?_ ?_ ?_
        · exact { ok.ok head p was with }
        · intro _
          refine iff_of_true rfl ⟨?_, left⟩
          rw [full]
          exact (ok.ok head p was).fits.2.1
        · exact fun parked => absurd parked left
        · exact fun holds => absurd holds free
      · exact fun c addr => pushed.slotOf_same was rfl rfl (fun _ => rfl) addr

theorem claimOn_relisted (here : At s virt p) (on : p.inPartial = true)
    {idx : Nat} (search : claimFreeSlot p = (some idx, { p with bitmap := setSlot p.bitmap idx })) :
    (claimOn s p.classIdx virt).1 = slotAddress virt p idx (classSize p.classIdx) ∧
      Relisted s (claimOn s p.classIdx virt).2 virt
        { claimedPage p idx with inPartial := decide (countDown p.freeCount ≠ 0) }
        (virt ∈ s.empties p.classIdx) := by
  have written : Relisted s (s.setPage virt (claimedPage p idx)) virt
      (claimedPage p idx) (virt ∈ s.empties p.classIdx) :=
    here.setPage rfl rfl
  have result : claimOn s p.classIdx virt = (slotAddress virt p idx (classSize p.classIdx),
        if countDown p.freeCount = 0 then
          partialRemove (s.setPage virt (claimedPage p idx)) p.classIdx virt
        else s.setPage virt (claimedPage p idx)) := by
    simp only [claimOn, here.page, search]
    rfl
  rw [result]
  refine ⟨rfl, ?_⟩
  by_cases last : countDown p.freeCount = 0
  · simp only [last, ne_eq, not_true_eq_false, decide_false]
    exact written.trans (written.at_.partialRemove on) rfl
  simp only [ne_eq, last, not_false_eq_true, decide_true]
  have same : claimedPage p idx = { claimedPage p idx with inPartial := true } := by
    rw [← on]
    rfl
  exact same ▸ written

theorem claimOn_spec (ok : SlabsOk s hand) (was : s.page virt = some p) (on : p.inPartial = true) :
    ∃ idx, idx < p.totalSlots ∧
    (claimFreeSlot p).1 = some idx ∧ (claimOn s p.classIdx virt).1 = slotStart virt p idx ∧
      SlabsOk (claimOn s p.classIdx virt).2 hand ∧ (∀ c, ¬ SlotOf s c (slotStart virt p idx)) ∧
      ∀ c addr, SlotOf (claimOn s p.classIdx virt).2 c addr ↔
        SlotOf s c addr ∨ (c = p.classIdx ∧ addr = slotStart virt p idx) := by
  have pageOk := ok.ok virt p was
  have free : ¬ hand virt := by
    intro holds
    obtain ⟨_, found, off, _⟩ := ok.held virt holds
    cases was.symm.trans found
    rw [on] at off
    cases off
  obtain ⟨positive, unparked⟩ := (ok.listed virt p was free).mp on
  obtain ⟨idx, search, below, clear⟩ := pageOk.claim_some positive
  obtain ⟨claimedOk, count, _, bits⟩ := pageOk.claimed below clear
  obtain ⟨address, relisted⟩ := claimOn_relisted (ok.at_ was) on search
  refine ⟨idx, below, by rw [search], ?_, ?_, ?_, ?_⟩
  · rw [address]
    exact pageOk.slotAddress_eq below (ok.placed virt p was).2
  · refine ok.relist was relisted rfl ?_ (fun _ _ => Iff.rfl) ?_ ?_ ?_
    · exact { claimedOk with }
    · intro _
      simp only [decide_eq_true_eq, unparked, not_false_eq_true, and_true]
      exact Nat.pos_iff_ne_zero.symm
    · exact fun parked => absurd parked unparked
    · exact fun holds => absurd holds free
  · intro c taken
    have := ((ok.slotOf_start was below).mp taken).2
    rw [clear] at this
    cases this
  intro c addr
  rw [relisted.slotOf was rfl rfl]
  constructor
  · rintro (⟨its, place, low, taken, rfl⟩ | ⟨other, q, place, _, found, its, low, taken, rfl⟩)
    · have bit := (bits place).symm.trans taken
      rcases Bool.or_eq_true_iff.mp bit with same | old
      · exact .inr ⟨its.symm, by rw [of_decide_eq_true same]⟩
      · exact .inl ⟨virt, p, place, was, its, low, old, rfl⟩
    · exact .inl ⟨other, q, place, found, its, low, taken, rfl⟩
  · rintro (⟨other, q, place, found, its, low, taken, rfl⟩ | ⟨rfl, rfl⟩)
    · by_cases same : other = virt
      · subst same
        cases was.symm.trans found
        refine .inl ⟨its, place, low, ?_, rfl⟩
        exact (bits place).trans (by rw [taken, Bool.or_true])
      · exact .inr ⟨other, q, place, same, found, its, low, taken, rfl⟩
    · refine .inl ⟨rfl, idx, below, ?_, rfl⟩
      exact (bits idx).trans (by simp)

theorem claimBatch_spec (cls times : Nat) : ∀ (s : Slabs) (batch : List Nat),
    SlabsOk s hand → ∃ new, (claimBatch cls times s batch).1 = new ++
      batch ∧ SlabsOk (claimBatch cls times s batch).2 hand ∧
        new.Nodup ∧ (∀ addr ∈ new, ∀ c, ¬ SlotOf s c addr) ∧ ∀ c addr, SlotOf
        (claimBatch cls times s batch).2 c addr ↔ SlotOf s c addr ∨ (c = cls ∧ addr ∈ new) := by
  induction times with
  | zero =>
    intro s batch ok
    exact ⟨[], rfl, ok, nodup_nil, nofun, fun c addr => by simp [claimBatch]⟩
  | succ _ ih =>
    intro s batch ok
    rw [claimBatch]
    cases picked : pickCachedPage s cls with
    | none => exact ⟨[], rfl, ok, nodup_nil, nofun, fun c addr => by simp⟩
    | some result =>
      obtain ⟨virt, s₁⟩ := result
      obtain ⟨ok₁, ⟨p, was, rfl, on⟩, same⟩ := pickCachedPage_spec ok picked
      obtain ⟨idx, _, _, address, ok₂, fresh, slots⟩ := claimOn_spec ok₁ was on
      obtain ⟨new, made, ok₃, distinct, unused, all⟩ :=
        ih (claimOn s₁ p.classIdx virt).2 ((claimOn s₁ p.classIdx virt).1 :: batch) ok₂
      rw [address] at made all ok₃
      dsimp only
      rw [address]
      refine ⟨new ++ [slotStart virt p idx], ?_, ok₃, ?_, ?_, ?_⟩
      · rw [made, append_assoc]
        rfl
      · refine nodup_append.mpr ⟨distinct, nodup_singleton _, ?_⟩
        rintro one inside two alone rfl
        rw [mem_singleton.mp alone] at inside
        exact unused _ inside p.classIdx ((slots p.classIdx _).mpr (.inr ⟨rfl, rfl⟩))
      · intro addr inside c taken
        rcases mem_append.mp inside with later | here
        · exact unused addr later c ((slots c addr).mpr (.inl ((same c addr).mpr taken)))
        · rw [mem_singleton.mp here] at taken
          exact fresh c ((same c _).mpr taken)
      · intro c addr
        rw [all, slots, same, mem_append, mem_singleton]
        exact ⟨fun either => by tauto, fun either => by tauto⟩

/-! ### Releasing -/

theorem pageBase_le (addr : Nat) : pageBase addr ≤ addr := Nat.div_mul_le_self ..

theorem lt_pageBase (addr : Nat) : addr < pageBase addr + pageSize := by
  have split := Nat.div_add_mod addr pageSize
  have low := Nat.mod_lt addr (show 0 < pageSize by decide)
  rw [pageBase, mul_comm]
  omega

theorem releaseSlotChecked_caught {addr : Nat} (ok : SlabsOk s hand)
    (was : s.page (pageBase addr) = some p) (free : ∀ c, ¬ SlotOf s c addr) :
    releaseSlotChecked s addr = (none, s.catchFree) := by
  simp only [releaseSlotChecked, was]
  split
  · rfl
  rename_i passed
  obtain ⟨below, exact_⟩ := not_or.mp passed
  rw [not_le] at below
  rw [not_not] at exact_
  have slot := (ok.ok _ p was).slot_of_distance (pageBase_le addr) (lt_pageBase addr) below exact_
  split
  · rename_i taken
    exact absurd ⟨pageBase addr, p, _, was, rfl, below, taken, slot⟩ (free p.classIdx)
  · rfl

/-- The page and the lists after a release: the page is back on the partial
list, parked as empty, or drained. -/
theorem releaseSlot_relisted (here : At s virt p) (onList : p.inPartial = true ↔ 0 < p.freeCount)
    (unparked : virt ∉ s.empties p.classIdx) (idx : Nat) :
    (countUp p.freeCount ≠ p.totalSlots ∧ (releaseSlot s virt p idx).1 = none ∧ Relisted s
      (releaseSlot s virt p idx).2 virt { releasedPage p idx with inPartial := true } False) ∨
    (countUp p.freeCount = p.totalSlots ∧ (((releaseSlot s virt p idx).1 = none ∧
        Relisted s (releaseSlot s virt p idx).2 virt
          { releasedPage p idx with inPartial := false } True) ∨
      ((releaseSlot s virt p idx).1 = some virt ∧ Relisted s (releaseSlot s virt p idx).2 virt
          { releasedPage p idx with inPartial := false } False))) := by
  have written : Relisted s (s.setPage virt (releasedPage p idx)) virt
      (releasedPage p idx) False := by
    have plain : Relisted s (s.setPage virt (releasedPage p idx)) virt
        (releasedPage p idx) (virt ∈ s.empties p.classIdx) :=
      here.setPage rfl rfl
    rwa [iff_false_intro unparked |>.eq] at plain
  -- the page is on the partial list once a full page has been pushed back
  have pushed : Relisted s (if p.freeCount = 0 then
        partialPush (s.setPage virt (releasedPage p idx)) p.classIdx virt
      else s.setPage virt (releasedPage p idx)) virt
      { releasedPage p idx with inPartial := true } False := by
    split
    · rename_i full
      have off : (releasedPage p idx).inPartial = false := by
        refine Bool.eq_false_iff.mpr fun on => ?_
        have := onList.mp on
        omega
      have again := written.trans (written.at_.partialPush off) rfl
      rwa [iff_false_intro (show virt ∉ (s.setPage virt (releasedPage p idx)).empties
          (releasedPage p idx).classIdx from unparked) |>.eq] at again
    · rename_i some
      have same : releasedPage p idx = { releasedPage p idx with inPartial := true } := by
        have on : p.inPartial = true := onList.mpr (Nat.pos_of_ne_zero some)
        rw [← on]
        rfl
      exact same ▸ written
  generalize next : (if p.freeCount = 0 then
    partialPush (s.setPage virt (releasedPage p idx)) p.classIdx virt
    else s.setPage virt (releasedPage p idx)) = s₂ at pushed
  have result : releaseSlot s virt p idx = if countUp p.freeCount = p.totalSlots then
        if (partialRemove s₂ p.classIdx virt).emptyN p.classIdx < emptyCacheMax then
          (none, pushEmpty (partialRemove s₂ p.classIdx virt) p.classIdx virt)
        else (some virt, partialRemove s₂ p.classIdx virt)
      else (none, s₂) := by
    rw [← next]
    rfl
  rw [result]
  by_cases whole : countUp p.freeCount = p.totalSlots
  · refine .inr ⟨whole, ?_⟩
    rw [if_pos whole]
    have gone := pushed.trans (pushed.at_.partialRemove rfl) rfl
    have outside : virt ∉ (partialRemove s₂ p.classIdx virt).empties p.classIdx := by
      intro inside
      exact pushed.emptiesSelf.mp (gone.emptiesSelf.mp inside)
    have removed : Relisted s (partialRemove s₂ p.classIdx virt) virt
        { releasedPage p idx with inPartial := false } False := by
      have plain := gone
      rwa [iff_false_intro pushed.emptiesSelf.mp |>.eq] at plain
    split
    · exact .inl ⟨rfl, removed.trans (removed.at_.pushEmpty outside) rfl⟩
    · exact .inr ⟨rfl, removed⟩
  · rw [if_neg whole]
    exact .inl ⟨whole, rfl, pushed⟩

section

variable (ok : SlabsOk s hand)
include ok

theorem SlabsOk.undrained (was : s.page virt = some p) {idx : Nat} (below : idx < p.totalSlots)
    (taken : slotTaken p idx = true) : ¬ hand virt ∧ virt ∉ s.empties p.classIdx := by
  have busy : p.freeCount ≠ p.totalSlots := by
    intro full
    have := (ok.ok virt p was).drained_iff.mp full idx below
    rw [taken] at this
    cases this
  constructor
  · intro holds
    obtain ⟨_, found, _, full⟩ := ok.held virt holds
    cases was.symm.trans found
    exact busy full
  · intro parked
    obtain ⟨_, found, _, _, full, _⟩ := ok.emptyMem _ virt parked
    cases was.symm.trans found
    exact busy full

theorem Relisted.slotOf_released {new : SlabPage} {parked : Prop} {idx : Nat}
    (relisted : Relisted s s' virt new parked) (was : s.page virt = some p)
    (sameClass : new.classIdx = p.classIdx) (sameTotal : new.totalSlots = p.totalSlots)
    (below : idx < p.totalSlots)
    (bits : ∀ other, slotTaken new other = (decide (other ≠ idx) && slotTaken p other)) (addr : Nat)
    : SlotOf s' cls addr ↔ SlotOf s cls addr ∧ addr ≠ slotStart virt p idx := by
  rw [relisted.slotOf was sameClass sameTotal]
  constructor
  · rintro (⟨its, place, low, taken, rfl⟩ | ⟨other, q, place, apart, found, its, low, taken, rfl⟩)
    · obtain ⟨different, old⟩ := Bool.and_eq_true_iff.mp ((bits place).symm.trans taken)
      refine ⟨⟨virt, p, place, was, its, low, old, rfl⟩, fun same => ?_⟩
      exact of_decide_eq_true different ((ok.ok virt p was).slotStart_inj same)
    · refine ⟨⟨other, q, place, found, its, low, taken, rfl⟩, fun same => ?_⟩
      refine apart ?_
      rw [← ok.pageBase_slot found low, ← ok.pageBase_slot was below, same]
  · rintro ⟨⟨other, q, place, found, its, low, taken, rfl⟩, apart⟩
    by_cases same : other = virt
    · subst same
      cases was.symm.trans found
      refine .inl ⟨its, place, low, ?_, rfl⟩
      rw [bits, taken, Bool.and_true]
      exact decide_eq_true fun equal => apart (by rw [equal])
    · exact .inr ⟨other, q, place, same, found, its, low, taken, rfl⟩

/-- The release of a taken slot frees that slot and no other; a drained page is
handed to the caller. -/
theorem releaseSlotChecked_taken {addr : Nat} (taken : SlotOf s cls addr) : SlabsOk
    (releaseSlotChecked s addr).2 (fun w => hand w ∨ (releaseSlotChecked s addr).1 = some w) ∧
      (∀ w, (releaseSlotChecked s addr).1 = some w → ¬ hand w) ∧
      ∀ c a, SlotOf (releaseSlotChecked s addr).2 c a ↔ SlotOf s c a ∧ a ≠ addr := by
  obtain ⟨virt, p, idx, was, its, below, bit, rfl⟩ := taken
  have pageOk := ok.ok virt p was
  have base := ok.pageBase_slot was below
  obtain ⟨free, unparked⟩ := ok.undrained was below bit
  have onList : p.inPartial = true ↔ 0 < p.freeCount := by
    rw [ok.listed virt p was free]
    simp [unparked]
  obtain ⟨releasedOk, count, bits⟩ := pageOk.released below bit
  have found : releaseSlotChecked s (slotStart virt p idx) = releaseSlot s virt p idx := by
    have distance : slotDistance virt p (slotStart virt p idx) = _ := pageOk.slotDistance_eq below
    have positive := pageOk.fits.1
    simp only [releaseSlotChecked, base, was, distance,
      Nat.mul_div_cancel _ positive, Nat.mul_mod_left]
    rw [if_neg (by omega), if_pos bit]
  rw [found]
  have none_ : ∀ w, (hand w ∨ (none : Option Nat) = some w) ↔ hand w := fun w => by simp
  rcases releaseSlot_relisted (ok.at_ was) onList unparked idx with
    ⟨busy, result, relisted⟩ | ⟨whole, ⟨result, relisted⟩ | ⟨result, relisted⟩⟩
  · rw [result]
    refine ⟨?_, nofun, fun c a => relisted.slotOf_released ok was rfl rfl below bits a⟩
    refine ok.relist was relisted rfl { releasedOk with } (fun w _ => none_ w) ?_ nofun ?_
    · intro _
      refine iff_of_true rfl ⟨?_, not_false⟩
      exact count ▸ Nat.succ_pos _
    · exact fun holds => absurd ((none_ virt).mp holds) free
  · rw [result]
    refine ⟨?_, nofun, fun c a => relisted.slotOf_released ok was rfl rfl below bits a⟩
    refine ok.relist was relisted rfl { releasedOk with } (fun w _ => none_ w) ?_ ?_ ?_
    · exact fun _ => iff_of_false nofun fun both => both.2 trivial
    · exact fun _ => ⟨rfl, whole, fun holds => free ((none_ virt).mp holds)⟩
    · exact fun holds => absurd ((none_ virt).mp holds) free
  · rw [result]
    refine ⟨?_, ?_, fun c a => relisted.slotOf_released ok was rfl rfl below bits a⟩
    · refine ok.relist was relisted rfl { releasedOk with } ?_ ?_ nofun ?_
      · intro w apart
        simp [Ne.symm apart]
      · exact fun loose => absurd (.inr rfl) loose
      · exact fun _ => ⟨rfl, whole⟩
    · intro w drained
      cases drained
      exact free

/-! ### Pages that come and go -/

theorem SlabsOk.create (fresh : s.page virt = none) (known : cls < numClasses)
    (aligned : pageSize ∣ virt) (high : virt + pageSize ≤ wordSize) :
    SlabsOk (s.setPage virt (freshPage cls)) (fun w => hand w ∨ w = virt) ∧
      ∀ c a, SlotOf (s.setPage virt (freshPage cls)) c a ↔ SlotOf s c a := by
  have self : (s.setPage virt (freshPage cls)).page virt = some (freshPage cls) := update_self ..
  have rest : ∀ other, other ≠ virt → (s.setPage virt (freshPage cls)).page other = s.page other :=
    fun other apart => update_of_ne apart ..
  have old : ∀ other p, s.page other = some p → other ≠ virt := by
    rintro other p found rfl
    rw [fresh] at found
    cases found
  refine ⟨?_, fun c a => ⟨?_, ?_⟩⟩
  · constructor
    case ok =>
      intro other p found
      by_cases same : other = virt
      · subst same
        cases self.symm.trans found
        exact freshPage_ok known
      · exact ok.ok other p ((rest other same).symm.trans found)
    case placed =>
      intro other p found
      by_cases same : other = virt
      · subst same
        exact ⟨aligned, high⟩
      · exact ok.placed other p ((rest other same).symm.trans found)
    case partialNodup => exact ok.partialNodup
    case partialMem =>
      intro c other
      by_cases same : other = virt
      · subst same
        refine iff_of_false ?_ ?_
        · intro inside
          obtain ⟨p, found, _⟩ := (ok.partialMem c other).mp inside
          exact old other p found rfl
        · rintro ⟨_, found, _, on⟩
          cases self.symm.trans found
          cases on
      · rw [rest other same]
        exact ok.partialMem c other
    case emptyNodup => exact ok.emptyNodup
    case emptyMem =>
      intro c other inside
      obtain ⟨p, found, its, off, full, free⟩ := ok.emptyMem c other inside
      have apart := old other p found
      exact ⟨p, (rest other apart).trans found, its, off, full, fun holds => holds.elim free apart⟩
    case emptyN => exact ok.emptyN
    case listed =>
      intro other p found free
      have apart : other ≠ virt := fun same => free (.inr same)
      exact ok.listed other p ((rest other apart).symm.trans found) fun holds => free (.inl holds)
    case held =>
      intro other holds
      by_cases same : other = virt
      · subst same
        exact ⟨_, self, rfl, rfl⟩
      · rw [rest other same]
        exact ok.held other (holds.resolve_right same)
  · rintro ⟨other, p, idx, found, its, below, taken, rfl⟩
    by_cases same : other = virt
    · subst same
      cases self.symm.trans found
      rw [freshPage_clear] at taken
      cases taken
    · exact ⟨other, p, idx, (rest other same).symm.trans found, its, below, taken, rfl⟩
  · rintro ⟨other, p, idx, found, its, below, taken, rfl⟩
    exact ⟨other, p, idx, (rest other (old other p found)).trans found, its, below, taken, rfl⟩

theorem SlabsOk.publish (was : s.page virt = some p) (holds : hand virt) :
    SlabsOk (partialPush s p.classIdx virt) (fun w => hand w ∧ w ≠ virt) ∧
      (partialPush s p.classIdx virt).page virt = some { p with inPartial := true } ∧
      ∀ c a, SlotOf (partialPush s p.classIdx virt) c a ↔ SlotOf s c a := by
  obtain ⟨_, found, off, full⟩ := ok.held virt holds
  cases was.symm.trans found
  have unparked : virt ∉ s.empties p.classIdx := by
    intro parked
    obtain ⟨_, _, _, _, _, free⟩ := ok.emptyMem _ virt parked
    exact free holds
  have pushed := (ok.at_ was).partialPush off
  refine ⟨?_, pushed.page_self, fun c a => pushed.slotOf_same was rfl rfl (fun _ => rfl) a⟩
  refine ok.relist was pushed rfl { ok.ok virt p was with } ?_ ?_ ?_ ?_
  · intro w apart
    simp [apart]
  · intro _
    refine iff_of_true rfl ⟨?_, unparked⟩
    rw [full]
    exact (ok.ok virt p was).fits.2.1
  · exact fun parked => absurd parked unparked
  · exact fun still => absurd rfl still.2

theorem SlabsOk.unmap (holds : hand virt) :
    SlabsOk { s with page := update s.page virt none } (fun w => hand w ∧ w ≠ virt) ∧
      ∀ c a, SlotOf { s with page := update s.page virt none } c a ↔ SlotOf s c a := by
  obtain ⟨_, was, off, _⟩ := ok.held virt holds
  have rest : ∀ other, other ≠ virt → update s.page virt none other = s.page other :=
    fun other apart => update_of_ne apart ..
  have there : ∀ other q, update s.page virt none other = some q →
      other ≠ virt ∧ s.page other = some q := by
    intro other q found
    by_cases same : other = virt
    · subst same
      rw [update_self] at found
      cases found
    · exact ⟨same, (rest other same).symm.trans found⟩
  have offList : ∀ c, virt ∉ s.partials c := by
    intro c inside
    obtain ⟨_, found, _, on⟩ := (ok.partialMem c virt).mp inside
    cases was.symm.trans found
    rw [off] at on
    cases on
  have offEmpty : ∀ c, virt ∉ s.empties c := by
    intro c inside
    obtain ⟨_, _, _, _, _, free⟩ := ok.emptyMem c virt inside
    exact free holds
  refine ⟨?_, fun c a => ⟨?_, ?_⟩⟩
  · constructor
    case ok => exact fun other q found => ok.ok other q (there other q found).2
    case placed => exact fun other q found => ok.placed other q (there other q found).2
    case partialNodup => exact ok.partialNodup
    case partialMem =>
      intro c other
      rw [ok.partialMem c other]
      constructor
      · rintro ⟨q, found, its, on⟩
        have apart : other ≠ virt := by
          rintro rfl
          exact offList c ((ok.partialMem c other).mpr ⟨q, found, its, on⟩)
        exact ⟨q, (rest other apart).trans found, its, on⟩
      · rintro ⟨q, found, its, on⟩
        exact ⟨q, (there other q found).2, its, on⟩
    case emptyNodup => exact ok.emptyNodup
    case emptyMem =>
      intro c other inside
      obtain ⟨q, found, its, flag, whole, free⟩ := ok.emptyMem c other inside
      have apart : other ≠ virt := by
        rintro rfl
        exact offEmpty c inside
      exact ⟨q, (rest other apart).trans found, its, flag, whole, fun both => free both.1⟩
    case emptyN => exact ok.emptyN
    case listed =>
      intro other q found free
      obtain ⟨apart, old⟩ := there other q found
      exact ok.listed other q old fun still => free ⟨still, apart⟩
    case held =>
      rintro other ⟨still, apart⟩
      obtain ⟨q, found, facts⟩ := ok.held other still
      exact ⟨q, (rest other apart).trans found, facts⟩
  · rintro ⟨other, q, idx, found, its, below, taken, rfl⟩
    exact ⟨other, q, idx, (there other q found).2, its, below, taken, rfl⟩
  · rintro ⟨other, q, idx, found, its, below, taken, rfl⟩
    have apart : other ≠ virt := by
      rintro rfl
      exact (ok.undrained found below taken).1 holds
    exact ⟨other, q, idx, (rest other apart).trans found, its, below, taken, rfl⟩

end

theorem trimClass_spec (cls times : Nat) :
    ∀ (s : Slabs) (chain : List Nat), SlabsOk s (fun w => hand w ∨ w ∈ chain) → chain.Nodup →
      (∀ w ∈ chain, ¬ hand w) → SlabsOk (trimClass cls times (s, chain)).1 (fun w => hand w ∨
          w ∈ (trimClass cls times (s, chain)).2) ∧ (trimClass cls times (s, chain)).2.Nodup ∧
        (∀ w ∈ (trimClass cls times (s, chain)).2, ¬ hand w) ∧
        ∀ c a, SlotOf (trimClass cls times (s, chain)).1 c a ↔ SlotOf s c a := by
  induction times with
  | zero => exact fun s chain ok distinct loose => ⟨ok, distinct, loose, fun _ _ => Iff.rfl⟩
  | succ _ ih =>
    intro s chain ok distinct loose
    rw [trimClass]
    split
    · cases stock : s.empties cls with
      | nil => exact ⟨ok, distinct, loose, fun _ _ => Iff.rfl⟩
      | cons head rest =>
        obtain ⟨p, was, rfl, off, full, free⟩ := ok.emptyMem cls head (by
          rw [stock]
          exact mem_cons_self ..)
        obtain ⟨unheld, unchained⟩ := not_or.mp free
        have popped := (ok.at_ was).popEmpty stock
        have next : SlabsOk (popEmpty s p.classIdx rest) (fun w => hand w ∨ w ∈ head :: chain) := by
          refine ok.relist was popped rfl (ok.ok head p was) ?_ ?_ nofun ?_
          · intro w apart
            simp [apart]
          · exact fun loose => absurd (.inr (mem_cons_self ..)) loose
          · exact fun _ => ⟨off, full⟩
        obtain ⟨ok', distinct', loose', same⟩ := ih (popEmpty s p.classIdx rest)
          (head :: chain) next (nodup_cons.mpr ⟨unchained, distinct⟩) (by
            intro w inside
            rcases mem_cons.mp inside with rfl | old
            · exact unheld
            · exact loose w old)
        refine ⟨ok', distinct', loose', fun c a => ?_⟩
        rw [same]
        exact popped.slotOf_same was rfl rfl (fun _ => rfl) a
    · exact ⟨ok, distinct, loose, fun _ _ => Iff.rfl⟩

theorem kheapEmptyTrim_spec (ok : SlabsOk s hand) :
    SlabsOk (kheapEmptyTrim s).1 (fun w => hand w ∨ w ∈ (kheapEmptyTrim s).2) ∧
      (kheapEmptyTrim s).2.Nodup ∧ (∀ w ∈ (kheapEmptyTrim s).2, ¬ hand w) ∧
      ∀ c a, SlotOf (kheapEmptyTrim s).1 c a ↔ SlotOf s c a := by
  have walk : ∀ (classes : List Nat) (result : Slabs × List Nat), (SlabsOk result.1
      (fun w => hand w ∨ w ∈ result.2) ∧ result.2.Nodup ∧ (∀ w ∈ result.2, ¬ hand w) ∧
        ∀ c a, SlotOf result.1 c a ↔ SlotOf s c a) → SlabsOk (classes.foldl (fun result cls =>
          trimClass cls (result.1.emptyN cls) result) result).1
          (fun w => hand w ∨ w ∈ (classes.foldl (fun result cls =>
            trimClass cls (result.1.emptyN cls) result) result).2) ∧
        (classes.foldl (fun result cls =>
          trimClass cls (result.1.emptyN cls) result) result).2.Nodup ∧
        (∀ w ∈ (classes.foldl (fun result cls =>
          trimClass cls (result.1.emptyN cls) result) result).2, ¬ hand w) ∧
        ∀ c a, SlotOf (classes.foldl (fun result cls =>
          trimClass cls (result.1.emptyN cls) result) result).1 c a ↔
          SlotOf s c a := by
    intro classes
    induction classes with
    | nil => exact fun _ good => good
    | cons cls _ ih =>
      rintro ⟨s₁, chain⟩ ⟨ok₁, distinct, loose, same⟩
      obtain ⟨ok₂, distinct₂, loose₂, same₂⟩ := trimClass_spec
        cls (s₁.emptyN cls) s₁ chain ok₁ distinct loose
      exact ih _ ⟨ok₂, distinct₂, loose₂, fun c a => (same₂ c a).trans (same c a)⟩
  exact walk (List.range numClasses) (s, []) ⟨by simpa using ok,
    nodup_nil, nofun, fun _ _ => Iff.rfl⟩

end Slots

end MainDob.Kernel.Kheap
