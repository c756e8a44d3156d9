/-
Purpose: The boot of the physical allocator, for every memory map: which bits
  are clear and what the counters say after it, and exactly when the counters
  are right and the clear frames are usable memory.
Trusted boundary: none beyond MainDob.Kernel.PmmInit
Main exports: addrToFrame_alignDown, releaseAll_spec, pmm_init_ok
-/
import MainDob.Kernel.PmmInit
import MainDob.Proofs.PmmContract
import Mathlib.Algebra.Order.BigOperators.Group.List
import Mathlib.Algebra.Order.Group.Nat

namespace MainDob.Kernel.Pmm

open List

/-! ### Rounding -/

theorem addrToFrame_alignDown (addr : BitVec 32) :
    addrToFrame (addr &&& ~~~pageMask) = addr.toNat / 4096 := by
  have high : ∀ i < 20, (0xFFF#32).getLsbD (12 + i) = false := by decide
  have same : (addr &&& ~~~pageMask) >>> pageShift = addr >>> pageShift := by
    refine BitVec.eq_of_getLsbD_eq fun i inside => ?_
    simp only [pageShift, pageMask, BitVec.getLsbD_ushiftRight,
      BitVec.getLsbD_and, BitVec.getLsbD_not]
    by_cases below : 12 + i < 32
    · rw [high i (by omega)]
      simp [below]
    · rw [BitVec.getLsbD_of_ge addr (12 + i) (by omega), Bool.false_and]
  unfold addrToFrame
  rw [same, BitVec.toNat_ushiftRight, pageShift, Nat.shiftRight_eq_div_pow]

theorem pageMask_toNat : pageMask.toNat = 4095 := rfl

theorem markEnd_eq {physAddr size : BitVec 32} (fits : physAddr.toNat + size.toNat + 4095 < 2 ^ 32)
    : markEnd physAddr size = (physAddr.toNat + size.toNat + 4095) / 4096 := by
  rw [markEnd, addrToFrame_alignDown, BitVec.toNat_add, BitVec.toNat_add, pageMask_toNat]
  omega

theorem markFirst_eq (physAddr : BitVec 32) : markFirst physAddr = physAddr.toNat / 4096 :=
  addrToFrame_alignDown physAddr

section Entries

variable {e : MmapEntry}

theorem usable_iff : e.usable = true ↔ e.type = 1#32 ∧ e.base.toNat < 2 ^ 32 := by
  rw [MmapEntry.usable, Bool.and_eq_true, beq_iff_eq, decide_eq_true_iff, BitVec.le_def]
  refine and_congr_right fun _ => ?_
  rw [show (0xFFFFFFFF#64).toNat = 2 ^ 32 - 1 from rfl]
  omega

theorem top_le (e : MmapEntry) : e.top.toNat ≤ e.base.toNat + e.length.toNat := by
  exact (Nat.mod_le _ _).trans (Nat.mod_le _ _)

theorem entryFirst_eq (usable : e.usable = true) (fits : e.base.toNat ≤ 0xFFFFF000) :
    entryFirst e = (e.base.toNat + 4095) / 4096 := by
  have below := (usable_iff.mp usable).2
  rw [entryFirst, addrToFrame_alignDown, BitVec.toNat_add,
    BitVec.toNat_setWidth, pageMask_toNat, Nat.mod_eq_of_lt below]
  omega

theorem entryFrames_held {z : Zones} (usable : e.usable = true) (fits : e.base.toNat ≤ 0xFFFFF000)
    {f : Nat} (released : f ∈ entryFrames z e) :
    e.base.toNat ≤ f * 4096 ∧ (f + 1) * 4096 ≤ e.base.toNat + e.length.toNat := by
  have bounds := mem_range'_1.mp released
  rw [entryFirst_eq usable fits] at bounds
  have last : f < entryEnd e := by omega
  rw [entryEnd, addrToFrame_alignDown] at last
  have top := top_le e
  omega

theorem entryFrames_below {z : Zones} {f : Nat}
    (released : f ∈ entryFrames z e) : f < z.allocCeiling := by
  have bounds := mem_range'_1.mp released
  omega

end Entries

/-! ### The release -/

variable {z : Zones}

theorem releaseFrom_eq (left f : Nat) (s : State) :
    releaseFrom z left f s = (List.range' f left).foldl (frameSetFree z) s := by
  induction left generalizing f s with
  | zero => rfl
  | succ _ ih => rw [releaseFrom, List.range'_succ, foldl_cons, ih]

theorem releaseAvailableRegions_eq (mmap : List MmapEntry) (s : State) :
    releaseAvailableRegions z mmap s =
      ((mmap.filter MmapEntry.usable).flatMap (entryFrames z)).foldl (frameSetFree z) s.fill := by
  rw [foldl_flatMap, foldl_filter]
  unfold releaseAvailableRegions
  congr 1
  funext s e
  unfold releaseEntry entryFrames
  rw [releaseFrom_eq]

theorem fill_used (s : State) (f : Nat) : frameIsUsed s.fill f = true := by
  have inside : f % 32 < 32 := Nat.mod_lt _ (by decide)
  rw [frameIsUsed, State.fill, BitVec.getLsbD_allOnes, decide_eq_true inside]

theorem fill_free (s : State) : s.fill.freeFrames = 0 := rfl

theorem fill_dma (s : State) : s.fill.dmaFree = 0 := rfl

theorem releaseAll_spec (frames : List Nat) (s : State)
    (free : s.freeFrames + frames.length < 2 ^ 32) (dma : s.dmaFree + frames.length < 2 ^ 32) :
    (∀ g, frameIsUsed (frames.foldl (frameSetFree z) s) g =
      (decide (g ∉ frames) && frameIsUsed s g)) ∧
    (frames.foldl (frameSetFree z) s).freeFrames = s.freeFrames + frames.length ∧
    (frames.foldl (frameSetFree z) s).dmaFree = s.dmaFree + frames.countP (· < z.dmaLimit) := by
  induction frames generalizing s with
  | nil => simp
  | cons f _ ih =>
    rw [length_cons] at free dma
    have more : (frameSetFree z s f).freeFrames = s.freeFrames + 1 := Nat.mod_eq_of_lt (by omega)
    have moreDma : (frameSetFree z s f).dmaFree = s.dmaFree + if f < z.dmaLimit then 1 else 0 := by
      change (if f < z.dmaLimit then increment s.dmaFree else s.dmaFree) = _
      unfold increment
      split <;> omega
    obtain ⟨bits, counted, countedDma⟩ := ih
      (frameSetFree z s f) (by omega) (by rw [moreDma]; split <;> omega)
    rw [foldl_cons]
    refine ⟨fun g => ?_, ?_, ?_⟩
    · rw [bits, frameIsUsed_setFree, ← Bool.and_assoc, ← Bool.decide_and]
      congr 2
      simp only [mem_cons, not_or, eq_iff_iff]
      exact and_comm
    · rw [counted, more, length_cons]
      omega
    · rw [countedDma, moreDma, countP_cons]
      simp only [decide_eq_true_eq]
      omega

/-! ### Counters with an excess -/

/-- The counters exceed the clear bits by `extraDma` and `extra`. -/
structure Counted (z : Zones) (s : State) (extraDma extra : Nat) : Prop where
  dma : s.dmaFree = clearBits s 0 z.dmaLimit + extraDma
  all : s.freeFrames = clearBits s 0 z.totalFrames + extra
  smallDma : s.dmaFree < 2 ^ 32
  small : s.freeFrames < 2 ^ 32

variable {s : State} {extraDma extra : Nat}

theorem Counted.setUsed (counted : Counted z s extraDma extra) {f : Nat}
    (inside : f < z.totalFrames) (free : frameIsUsed s f = false) :
    Counted z (frameSetUsed z s f) extraDma extra := by
  have after := frameIsUsed_setUsed z s f
  have all := clearBits_setUsed (Nat.zero_le f) inside free after
  have counter : (frameSetUsed z s f).freeFrames = s.freeFrames - 1 := by
    change decrement s.freeFrames = _
    have before := counted.all
    have small := counted.small
    unfold decrement
    omega
  have counterDma : (frameSetUsed z s f).dmaFree =
      clearBits (frameSetUsed z s f) 0 z.dmaLimit + extraDma := by
    change (if f < z.dmaLimit then decrement s.dmaFree else s.dmaFree) = _
    have before := counted.dma
    have small := counted.smallDma
    split
    · rename_i low
      have count := clearBits_setUsed (Nat.zero_le f) low free after
      unfold decrement
      omega
    · rename_i high
      rw [clearBits_congr (s := s) (fun g _ below => by
        rw [after, decide_eq_false (by omega), Bool.false_or])]
      exact before
  have before := counted.all
  have small := counted.small
  refine ⟨counterDma, by omega, ?_, by omega⟩
  change (if f < z.dmaLimit then decrement s.dmaFree else s.dmaFree) < _
  have smallDma := counted.smallDma
  unfold decrement
  split <;> omega

theorem Counted.markRun {left f : Nat} (counted : Counted z s extraDma extra)
    (inside : f + left ≤ z.totalFrames ∨ left = 0) :
    Counted z (markRun z left f s) extraDma extra ∧ ∀ g, frameIsUsed (Pmm.markRun z left f s) g =
        (decide (f ≤ g ∧ g < f + left) || frameIsUsed s g) := by
  induction left generalizing f s with
  | zero =>
    refine ⟨counted, fun g => ?_⟩
    rw [Pmm.markRun, decide_eq_false (by omega), Bool.false_or]
  | succ left ih =>
    rw [Pmm.markRun]
    have rest : f + 1 + left ≤ z.totalFrames ∨ left = 0 := by omega
    have join : ∀ g, (decide (f + 1 ≤ g ∧ g < f + 1 + left) ||
        decide (g = f)) = decide (f ≤ g ∧ g < f + (left + 1)) := by
      intro g
      rw [← Bool.decide_or]
      congr 1
      exact propext (by omega)
    split
    · rename_i used
      obtain ⟨kept, bits⟩ := ih counted rest
      refine ⟨kept, fun g => ?_⟩
      rw [bits, ← join, Bool.or_assoc]
      by_cases here : g = f
      · rw [here, used]
        simp
      · rw [decide_eq_false here, Bool.false_or]
    · rename_i free
      obtain ⟨kept, bits⟩ := ih (counted.setUsed (f := f) (by omega) (by simpa using free)) rest
      refine ⟨kept, fun g => ?_⟩
      rw [bits, frameIsUsed_setUsed, ← join, Bool.or_assoc]

theorem Counted.markUsed (counted : Counted z s extraDma extra) (physAddr size : BitVec 32) :
    Counted z (pmmMarkUsed z physAddr size s) extraDma extra ∧
      ∀ g, frameIsUsed (pmmMarkUsed z physAddr size s) g = false ↔ frameIsUsed s g = false ∧
        ¬ (markFirst physAddr ≤ g ∧ g < markEnd physAddr size ∧ g < z.totalFrames) := by
  obtain ⟨kept, bits⟩ := counted.markRun (by omega : markFirst physAddr +
        (min (markEnd physAddr size) z.totalFrames - markFirst physAddr) ≤ z.totalFrames ∨
      min (markEnd physAddr size) z.totalFrames - markFirst physAddr = 0)
  refine ⟨kept, fun g => ?_⟩
  unfold pmmMarkUsed
  rw [bits, Bool.or_eq_false_iff, decide_eq_false_iff_not, and_comm]
  refine and_congr_right fun _ => not_congr ?_
  omega

theorem Counted.markModules (modules : List (BitVec 32 × BitVec 32))
    (counted : Counted z s extraDma extra) :
    Counted z (modules.foldl (fun s module => pmmMarkUsed z module.1 (module.2 - module.1) s) s)
      extraDma extra ∧ ∀ g, frameIsUsed (modules.foldl
      (fun s module => pmmMarkUsed z module.1 (module.2 - module.1) s) s) g = false ↔
      frameIsUsed s g = false ∧ ¬ ∃ module ∈ modules,
      markFirst module.1 ≤ g ∧ g < markEnd module.1 (module.2 - module.1) ∧ g < z.totalFrames := by
  induction modules generalizing s with
  | nil => exact ⟨counted, fun g => by simp⟩
  | cons module _ ih =>
    obtain ⟨kept, bits⟩ := counted.markUsed module.1 (module.2 - module.1)
    obtain ⟨rest, later⟩ := ih kept
    refine ⟨rest, fun g => ?_⟩
    rw [foldl_cons, later g, bits g, exists_mem_cons_iff, not_or, and_assoc]

/-! ### The boot -/

variable (boot : BootInfo)

theorem bootZones_ceiling : (bootZones boot).allocCeiling ≤ 65536 :=
  (min_le_right _ _).trans (show addrToFrame directMapLimit ≤ 65536 by decide)

theorem releasedFrames_length : (releasedFrames boot).length ≤ 2 ^ 21 := by
  have each : ∀ e ∈ boot.mmap.filter MmapEntry.usable,
      (entryFrames (bootZones boot) e).length ≤ 65536 := by
    intro e _
    have ceiling := bootZones_ceiling boot
    rw [entryFrames, length_range']
    omega
  have sum := sum_le_card_nsmul ((boot.mmap.filter MmapEntry.usable).map fun e =>
      (entryFrames (bootZones boot) e).length) 65536
    (fun _ held => by
      obtain ⟨e, inside, rfl⟩ := mem_map.mp held
      exact each e inside)
  have entries := (length_filter_le MmapEntry.usable boot.mmap).trans boot.mmap_le
  rw [releasedFrames, length_flatMap]
  rw [length_map, nsmul_eq_mul, Nat.cast_id] at sum
  simp only [bootMmapMax] at entries
  omega

theorem releasedFrames_below {f : Nat} (released : f ∈ releasedFrames boot) :
    f < (bootZones boot).allocCeiling := by
  obtain ⟨_, _, inside⟩ := mem_flatMap.mp released
  exact entryFrames_below inside

theorem released_spec : (∀ g, frameIsUsed (releaseAvailableRegions (bootZones boot) boot.mmap
      State.unset) g = false ↔ g ∈ releasedFrames boot) ∧
    Counted (bootZones boot) (releaseAvailableRegions (bootZones boot) boot.mmap State.unset)
      ((releasedFrames boot).countP (· < (bootZones boot).dmaLimit) -
        ((releasedFrames boot).toFinset.filter (· < (bootZones boot).dmaLimit)).card)
      ((releasedFrames boot).length - (releasedFrames boot).toFinset.card) := by
  have length := releasedFrames_length boot
  have dmaLength : (releasedFrames boot).countP
      (· < (bootZones boot).dmaLimit) ≤ (releasedFrames boot).length :=
    countP_le_length
  rw [releaseAvailableRegions_eq]
  change (∀ g, frameIsUsed ((releasedFrames boot).foldl _ _) g = false ↔ _) ∧
    Counted _ ((releasedFrames boot).foldl _ _) _ _
  obtain ⟨bits, free, dma⟩ := releaseAll_spec (z := bootZones boot)
    (releasedFrames boot) State.unset.fill (by rw [fill_free]; omega) (by rw [fill_dma]; omega)
  generalize (releasedFrames boot).foldl (frameSetFree (bootZones boot)) _ = s at bits free dma
  have clear : ∀ g, frameIsUsed s g = false ↔ g ∈ releasedFrames boot := by
    intro g
    rw [bits, Bool.and_eq_false_iff, decide_eq_false_iff_not, not_not]
    rw [fill_used]
    simp
  have total := (bootZones boot).ceiling_le
  have all : clearBits s 0 (bootZones boot).totalFrames = (releasedFrames boot).toFinset.card := by
    unfold clearBits
    congr 1
    ext g
    simp only [Finset.mem_filter, Finset.mem_Ico, mem_toFinset, clear]
    constructor
    · exact fun held => held.2
    intro released
    have below := releasedFrames_below boot released
    exact ⟨⟨Nat.zero_le _, by omega⟩, released⟩
  have low : clearBits s 0 (bootZones boot).dmaLimit = ((releasedFrames boot).toFinset.filter
        (· < (bootZones boot).dmaLimit)).card := by
    unfold clearBits
    congr 1
    ext g
    simp only [Finset.mem_filter, Finset.mem_Ico, mem_toFinset, clear]
    constructor
    · exact fun held => ⟨held.2, held.1.2⟩
    · exact fun held => ⟨⟨Nat.zero_le _, held.2⟩, held.1⟩
  have cardAll := toFinset_card_le (releasedFrames boot)
  have cardLow : ((releasedFrames boot).toFinset.filter (· < (bootZones boot).dmaLimit)).card ≤
      (releasedFrames boot).countP (· < (bootZones boot).dmaLimit) := by
    rw [countP_eq_length_filter]
    refine (Finset.card_le_card ?_).trans (toFinset_card_le _)
    intro g held
    simpa using held
  rw [fill_free] at free
  rw [fill_dma] at dma
  exact ⟨clear, by omega, by omega, by omega, by omega⟩

theorem reserved_image (f : Nat) : ((markFirst 0#32 ≤ f ∧ f < markEnd 0#32 0x100000#32) ∨
    (markFirst 0x100000#32 ≤ f ∧ f < markEnd 0x100000#32 (boot.kernelPhysEnd - 0x100000#32))) ↔
    f * 4096 < boot.kernelPhysEnd.toNat := by
  have start := boot.image_start
  have limit := boot.image_end
  rw [show directMapLimit.toNat = 0x10000000 from rfl] at limit
  have size : (boot.kernelPhysEnd - 0x100000#32).toNat = boot.kernelPhysEnd.toNat - 0x100000 := by
    rw [BitVec.toNat_sub_of_le]
    · rfl
    · rw [BitVec.le_def]
      exact start
  have low : (0#32).toNat = 0 := rfl
  have mega : (0x100000#32).toNat = 0x100000 := rfl
  rw [markEnd_eq (by rw [low, mega]; omega),
    markEnd_eq (by rw [size, mega]; omega), markFirst_eq, markFirst_eq, size, low, mega]
  omega

theorem pmmInit_spec : (∀ f, frameIsUsed (pmmInit boot) f = false ↔
    f ∈ releasedFrames boot ∧ ¬ Reserved boot f) ∧ Counted (bootZones boot) (pmmInit boot)
      ((releasedFrames boot).countP (· < (bootZones boot).dmaLimit) -
        ((releasedFrames boot).toFinset.filter (· < (bootZones boot).dmaLimit)).card)
      ((releasedFrames boot).length - (releasedFrames boot).toFinset.card) := by
  obtain ⟨released, counted⟩ := released_spec boot
  generalize released_ : releaseAvailableRegions (bootZones boot) boot.mmap
    State.unset = s at released counted
  obtain ⟨countedLow, low⟩ := counted.markUsed 0#32 0x100000#32
  obtain ⟨countedImage, image⟩ := countedLow.markUsed 0x100000#32 (boot.kernelPhysEnd - 0x100000#32)
  obtain ⟨countedAll, modules⟩ := countedImage.markModules boot.modules
  have bits : ∀ f, frameIsUsed (pmmInit boot) f = frameIsUsed
      (reserveCriticalRegions (bootZones boot) boot s) f := by
    intro f
    unfold pmmInit frameIsUsed
    dsimp only
    rw [released_]
  have all := (bootZones boot).ceiling_le
  constructor
  · intro f
    rw [bits]
    refine (modules f).trans ?_
    rw [image, low, released, Reserved, ← reserved_image boot f]
    by_cases held : f ∈ releasedFrames boot
    · have below := lt_of_lt_of_le (releasedFrames_below boot held) all
      simp only [held, below, and_true, true_and, not_or, and_assoc]
    · simp only [held, false_and]
  · unfold pmmInit
    dsimp only
    rw [released_]
    exact { countedAll with }

/-- After the boot the counter of each zone is the number of its clear bits, and
a clear frame lies inside an AVAILABLE entry and outside the first megabyte and
the kernel image. -/
structure BootOk (boot : BootInfo) (s : State) : Prop where
  dma : s.dmaFree = clearBits s 0 (bootZones boot).dmaLimit
  normal : s.freeFrames = s.dmaFree +
    clearBits s (bootZones boot).dmaLimit (bootZones boot).allocCeiling
  inside : ∀ f, frameIsUsed s f = false →
    Held boot f ∧ 0x100000 ≤ f * 4096 ∧ boot.kernelPhysEnd.toNat ≤ f * 4096

theorem clearBits_split (s : State) {lo mid hi : Nat} (first : lo ≤ mid) (second : mid ≤ hi) :
    clearBits s lo hi = clearBits s lo mid + clearBits s mid hi := by
  unfold clearBits
  rw [← Finset.card_union_of_disjoint, ← Finset.filter_union,
    Finset.Ico_union_Ico_eq_Ico first second]
  exact Finset.disjoint_filter_filter (Finset.Ico_disjoint_Ico_consecutive lo mid hi)

theorem dmaLimit_le_ceiling : (bootZones boot).dmaLimit ≤ (bootZones boot).allocCeiling := by
  have dma : addrToFrame pmmDmaLimit = 4096 := by decide
  have limit : addrToFrame directMapLimit = 65536 := by decide
  simp only [bootZones, measureUsableRam, dma, limit]
  omega

theorem pmmInit_zones : clearBits (pmmInit boot) 0 (bootZones boot).totalFrames =
      clearBits (pmmInit boot) 0 (bootZones boot).dmaLimit +
        clearBits (pmmInit boot) (bootZones boot).dmaLimit (bootZones boot).allocCeiling := by
  have order := dmaLimit_le_ceiling boot
  have total := (bootZones boot).ceiling_le
  rw [clearBits_split _ (Nat.zero_le _) (order.trans total),
    clearBits_split _ order total, Nat.add_left_cancel_iff,
    Nat.add_eq_left]
  refine Finset.card_eq_zero.mpr (Finset.filter_eq_empty_iff.mpr ?_)
  intro f outside clear
  have released := ((pmmInit_spec boot).1 f).mp clear
  have below := releasedFrames_below boot released.1
  have above := (Finset.mem_Ico.mp outside).1
  omega

theorem counters_iff :
    ((pmmInit boot).dmaFree = clearBits (pmmInit boot) 0 (bootZones boot).dmaLimit ∧
      (pmmInit boot).freeFrames = (pmmInit boot).dmaFree + clearBits (pmmInit boot)
        (bootZones boot).dmaLimit (bootZones boot).allocCeiling) ↔ (releasedFrames boot).Nodup := by
  obtain ⟨_, counted⟩ := pmmInit_spec boot
  have zones := pmmInit_zones boot
  have dma := counted.dma
  have all := counted.all
  have cardAll := toFinset_card_le (releasedFrames boot)
  constructor
  · rintro ⟨low, normal⟩
    have same : (releasedFrames boot).toFinset.card = (releasedFrames boot).length := by omega
    exact Multiset.toFinset_card_eq_card_iff_nodup.mp same
  intro once
  have same := toFinset_card_of_nodup once
  have low : ((releasedFrames boot).toFinset.filter (· < (bootZones boot).dmaLimit)).card =
      (releasedFrames boot).countP (· < (bootZones boot).dmaLimit) := by
    rw [countP_eq_length_filter, ← toFinset_card_of_nodup (once.filter _)]
    congr 1
    ext f
    simp
  omega

theorem inside_iff : (∀ f, frameIsUsed (pmmInit boot) f = false →
      Held boot f ∧ 0x100000 ≤ f * 4096 ∧ boot.kernelPhysEnd.toNat ≤ f * 4096) ↔
    ∀ e ∈ boot.mmap, e.usable = true → 0xFFFFF000 < e.base.toNat →
      ∀ f ∈ entryFrames (bootZones boot) e, Reserved boot f ∨ Held boot f := by
  have bits := (pmmInit_spec boot).1
  constructor
  · intro inside e listed usable wraps f released
    by_cases reserved : Reserved boot f
    · exact .inl reserved
    · refine .inr (inside f ((bits f).mpr ⟨?_, reserved⟩)).1
      exact mem_flatMap.mpr ⟨e, mem_filter.mpr ⟨listed, usable⟩, released⟩
  intro clean f clear
  obtain ⟨released, open_⟩ := (bits f).mp clear
  obtain ⟨e, filtered, mine⟩ := mem_flatMap.mp released
  obtain ⟨listed, usable⟩ := mem_filter.mp filtered
  have held : Held boot f := by
    by_cases wraps : 0xFFFFF000 < e.base.toNat
    · exact (clean e listed usable wraps f mine).resolve_left open_
    · obtain ⟨low, high⟩ := entryFrames_held usable (by omega) mine
      exact ⟨e, listed, (usable_iff.mp usable).1, low, high⟩
  have image : boot.kernelPhysEnd.toNat ≤ f * 4096 := by
    by_contra below
    exact open_ (.inl (by omega))
  exact ⟨held, boot.image_start.trans image, image⟩

/-- For every memory map, the boot leaves the allocator in order exactly when
the map is clean. -/
theorem pmm_init_ok : BootOk boot (pmmInit boot) ↔ Clean boot := by
  constructor
  · intro ok
    exact
      { once := (counters_iff boot).mp ⟨ok.dma, ok.normal⟩
        wrapped := (inside_iff boot).mp ok.inside }
  · intro clean
    obtain ⟨dma, normal⟩ := (counters_iff boot).mpr clean.once
    exact { dma, normal, inside := (inside_iff boot).mpr clean.wrapped }

/-- The memory of a machine of 32 MB above the first megabyte. -/
def wholeMemory : MmapEntry := ⟨0x100000#64, 0x1F00000#64, 1#32⟩

/-- The page at 2 MB. -/
def onePage : MmapEntry := ⟨0x200000#64, 0x1000#64, 1#32⟩

/-- A memory map in which a second entry repeats a page of the first. -/
def repeatedPage : BootInfo where
  mmap := [wholeMemory, onePage]
  modules := []
  kernelPhysEnd := 0x180000#32
  mmap_le := by decide
  image_start := by decide
  image_end := by decide

/-- A frame that two AVAILABLE entries cover is counted twice. -/
theorem pmm_init_overlap : ¬ ∀ boot : BootInfo, BootOk boot (pmmInit boot) := by
  intro claimed
  have ok := claimed repeatedPage
  have once := (counters_iff repeatedPage).mp ⟨ok.dma, ok.normal⟩
  have entries : repeatedPage.mmap.filter MmapEntry.usable = [wholeMemory, onePage] := by decide
  rw [releasedFrames, entries] at once
  have apart := rel_of_pairwise_cons (nodup_flatMap.mp once).2 (mem_singleton_self onePage)
  have first : entryFirst wholeMemory = 256 ∧
      min (entryEnd wholeMemory) (bootZones repeatedPage).allocCeiling = 8192 := by decide
  have second : entryFirst onePage = 512 ∧
      min (entryEnd onePage) (bootZones repeatedPage).allocCeiling = 513 := by
    decide
  refine apart (a := 512) ?_ ?_
  · rw [entryFrames, first.1, first.2, mem_range'_1]
    omega
  · rw [entryFrames, second.1, second.2, mem_range'_1]
    omega

end MainDob.Kernel.Pmm
