/-
Purpose: When the physical pages that a driver gets mapped are those it asked for,
  and none that belongs to others: what its checks come to in 32 bits.
Trusted boundary: none (fully proved)
Main exports: Guarded, Fits, mmap_phys_guarded_iff
-/
import MainDob.Kernel.MmapPhys

namespace MainDob.Kernel.MmapPhys

open Pmm (Zones addrToFrame frameToAddr measureUsableRam)
open Regions
open List

/-- `DIRECT_MAP_LIMIT`; the kernel image lies below it. -/
def directMapLimit : Nat := 0x10000000

/-- The pages cover the bytes without wrapping, and none of them is page zero, part of
the kernel image or an allocated frame outside the VGA window. -/
structure Guarded (kernelPhysEnd : Nat) (z : Zones) (s : Pmm.State) (physAddr size : Nat)
    (pages : List Nat) : Prop where
  covers : physAddr % pageSize + size ≤ pages.length * pageSize
  straight : ∀ i page, pages[i]? = some page → page = alignDown physAddr + i * pageSize
  notZero : ∀ page ∈ pages, page ≠ 0
  notKernel : ∀ page ∈ pages, page < kstart ∨ kernelPhysEnd ≤ page
  notTaken : ∀ page ∈ pages, pmmIsFrameAllocated z s page = true → 0xA0000 ≤ page ∧ page < 0xC0000

/-- The condition: the bytes, with the offset of the first one, number at most 2³²;
their pages do not pass the top of the address space; and pages that end there, and
begin below the top of the RAM, are not allocated. -/
def Fits (z : Zones) (s : Pmm.State) (physAddr size : Nat) : Prop :=
  let base := alignDown physAddr
  let bytes := alignUp (add32 size (physAddr % pageSize))
  size + physAddr % pageSize ≤ wordSize ∧ base + bytes ≤ wordSize ∧
    (base + bytes = wordSize → base < pmmGetRamTop z →
      ∀ i < bytes / pageSize, pmmIsFrameAllocated z s (base + i * pageSize) = false)

theorem sysMmapPhys_cases {kernelPhysEnd : Nat} {z : Zones} {s : Pmm.State}
    {space space' : Space} {isDriver : Bool} {physAddr size virt : Nat} {fresh : Option Nat}
    {mapped : List (Nat × Nat)} (maps : sysMmapPhys kernelPhysEnd z s space isDriver physAddr
      size fresh = some (space', virt, mapped)) (succeeds : virt ≠ 0) : denied kernelPhysEnd z s
    (alignDown physAddr) (alignUp (add32 size (physAddr % pageSize))) = false ∧
      alignUp (add32 size (physAddr % pageSize)) / pageSize ≠ 0 ∧
      mapped.map (·.2) = (List.range (alignUp (add32 size (physAddr % pageSize)) /
        pageSize)).map (physPage (alignDown physAddr)) := by
  unfold sysMmapPhys at maps
  split at maps
  · cases maps
    exact absurd rfl succeeds
  dsimp only at maps
  generalize alignUp (add32 size (physAddr % pageSize)) = bytes at maps ⊢
  split at maps
  · cases maps
    exact absurd rfl succeeds
  rename_i allowed
  obtain ⟨⟨space₁, at_⟩, allocates, maps⟩ := Option.bind_eq_some_iff.mp maps
  split at maps
  · cases maps
    exact absurd rfl succeeds
  rename_i some
  cases maps
  refine ⟨Bool.eq_false_of_not_eq_true allowed, fun none => ?_, by simp⟩
  rw [none] at allocates
  cases allocates
  exact some rfl

theorem pmmGetRamTop_eq (rawTop limit : BitVec 32) : pmmGetRamTop (measureUsableRam rawTop limit) =
      (measureUsableRam rawTop limit).totalFrames * pageSize ∧
    (measureUsableRam rawTop limit).totalFrames * pageSize ≤ wordSize - pageSize := by
  have below : (measureUsableRam rawTop limit).totalFrames < 1048576 := by
    simp only [measureUsableRam, addrToFrame, Pmm.pageShift, BitVec.toNat_ushiftRight,
      Nat.shiftRight_eq_div_pow]
    omega
  unfold pmmGetRamTop frameToAddr
  rw [BitVec.toNat_shiftLeft, BitVec.toNat_ofNat, Nat.shiftLeft_eq]
  unfold Pmm.pageShift pageSize wordSize
  omega

theorem notAllocated_above {z : Zones} {s : Pmm.State} {page : Nat}
    (above : z.totalFrames * pageSize ≤ page) (small : page < wordSize) :
    pmmIsFrameAllocated z s page = false := by
  unfold pmmIsFrameAllocated addrToFrame
  refine if_pos ?_
  rw [BitVec.toNat_ushiftRight, BitVec.toNat_ofNat, Nat.shiftRight_eq_div_pow]
  unfold Pmm.pageShift
  unfold pageSize at above
  unfold wordSize at small
  omega

theorem allowed_range {kernelPhysEnd : Nat} {z : Zones} {s : Pmm.State} {base bytes : Nat}
    (allowed : denied kernelPhysEnd z s base bytes = false) : 4096 ≤ base ∧
    ¬(kstart < add32 base bytes ∧ base < alignUp kernelPhysEnd) ∧ bytes / pageSize ≤ 4096 ∧
      (base < pmmGetRamTop z → ¬(0xA0000 ≤ base ∧ add32 base bytes ≤ 0xC0000) →
        ∀ i < bytes / pageSize, pmmIsFrameAllocated z s (physPage base i) = false) := by
  unfold denied at allowed
  dsimp only at allowed
  split at allowed
  · cases allowed
  split at allowed
  · cases allowed
  split at allowed
  · cases allowed
  rename_i notZero notKernel few
  refine ⟨by omega, notKernel, by omega, fun low noVga i here => ?_⟩
  rw [if_pos ⟨low, by rw [decide_eq_false noVga]; rfl⟩] at allowed
  exact Bool.eq_false_of_not_eq_true fun taken =>
    Bool.false_ne_true (allowed ▸ any_eq_true.mpr ⟨i, mem_range.mpr here, taken⟩)

theorem physPage_straight {base i : Nat} (inside : base + i * pageSize < wordSize) :
    physPage base i = base + i * pageSize := by
  unfold physPage mul32 add32
  rw [Nat.mod_eq_of_lt (show i * pageSize < wordSize by omega), Nat.mod_eq_of_lt inside]

theorem rounded_covers {size offset : Nat} (fits : size + offset ≤ wordSize) (some : alignUp
    (add32 size offset) / pageSize ≠ 0) : size + offset ≤ alignUp (add32 size offset) ∧
      alignUp (add32 size offset) / pageSize * pageSize = alignUp (add32 size offset) := by
  unfold alignUp alignDown add32 pageSize wordSize at *
  omega

/-- A call that returns an address maps what it should exactly when the pages it is
asked for fit. -/
theorem mmap_phys_guarded_iff {kernelPhysEnd : Nat} (image : kernelPhysEnd ≤ directMapLimit)
    {rawTop limit : BitVec 32} {s : Pmm.State} {space space' : Space} {isDriver : Bool}
    {physAddr size : UInt32} {virt : Nat} {fresh : Option Nat} {mapped : List (Nat × Nat)}
    (maps : sysMmapPhys kernelPhysEnd (measureUsableRam rawTop limit) s space isDriver
      physAddr.toNat size.toNat fresh = some (space', virt, mapped)) (succeeds : virt ≠ 0) :
    Guarded kernelPhysEnd (measureUsableRam rawTop limit) s physAddr.toNat size.toNat
        (mapped.map (·.2)) ↔ Fits (measureUsableRam rawTop limit) s physAddr.toNat size.toNat := by
  obtain ⟨allowed, pages, images⟩ := sysMmapPhys_cases maps succeeds
  obtain ⟨aboveZero, notKernel, few, checked⟩ := allowed_range allowed
  have low := physAddr.toNat_lt
  have ramTop := (pmmGetRamTop_eq rawTop limit).1
  rw [images]
  unfold Fits
  dsimp only
  generalize measureUsableRam rawTop limit = z at *
  have aligned : alignDown physAddr.toNat % pageSize = 0 := Nat.mul_mod_left ..
  have baseLow : alignDown physAddr.toNat < wordSize :=
    Nat.lt_of_le_of_lt (Nat.div_mul_le_self ..) low
  have whole : alignUp (add32 size.toNat (physAddr.toNat % pageSize)) % pageSize = 0 :=
    Nat.mul_mod_left ..
  generalize bytesEq : alignUp (add32 size.toNat (physAddr.toNat % pageSize)) = bytes at *
  constructor
  · intro guarded
    have covers := guarded.covers
    rw [length_map, length_range] at covers
    have last := guarded.straight (bytes / pageSize - 1)
      (physPage (alignDown physAddr.toNat) (bytes / pageSize - 1)) (by
        rw [List.getElem?_map, List.getElem?_range (Nat.sub_one_lt pages)]
        rfl)
    have small : physPage (alignDown physAddr.toNat) (bytes / pageSize - 1) < wordSize :=
      Nat.mod_lt _ (by decide)
    have top : alignDown physAddr.toNat + bytes ≤ wordSize := by
      unfold pageSize wordSize at *
      omega
    have fits : size.toNat + physAddr.toNat % pageSize ≤ wordSize := by
      unfold pageSize wordSize at *
      omega
    refine ⟨fits, top, fun ends low i here => ?_⟩
    have inside : alignDown physAddr.toNat + i * pageSize < wordSize := by
      unfold pageSize wordSize at *
      omega
    have at_ := physPage_straight inside
    refine Bool.eq_false_of_not_eq_true fun taken => ?_
    have window := guarded.notTaken _ (mem_map.mpr ⟨i, mem_range.mpr here, at_⟩) taken
    unfold pageSize wordSize at *
    omega
  · rintro ⟨fits, top, highest⟩
    have covers := rounded_covers fits (bytesEq ▸ pages)
    rw [bytesEq] at covers
    have straight : ∀ i < bytes / pageSize, physPage (alignDown physAddr.toNat) i =
        alignDown physAddr.toNat + i * pageSize := fun i here =>
      physPage_straight (by unfold pageSize wordSize at *; omega)
    have pagesAt :
        ∀ page ∈ (List.range (bytes / pageSize)).map (physPage (alignDown physAddr.toNat)),
        ∃ i < bytes / pageSize, page = alignDown physAddr.toNat + i * pageSize := by
      intro page member
      obtain ⟨i, here, rfl⟩ := mem_map.mp member
      exact ⟨i, mem_range.mp here, straight i (mem_range.mp here)⟩
    constructor
    · rw [length_map, length_range, covers.2, Nat.add_comm]
      exact covers.1
    · intro i page at_
      obtain ⟨_, there, rfl⟩ := Option.map_eq_some_iff.mp (List.getElem?_map .. ▸ at_)
      obtain ⟨here, same⟩ := List.getElem?_eq_some_iff.mp there
      rw [getElem_range] at same
      rw [length_range] at here
      subst same
      exact straight _ here
    · intro page member
      obtain ⟨i, here, rfl⟩ := pagesAt page member
      omega
    · intro page member
      obtain ⟨i, here, rfl⟩ := pagesAt page member
      unfold alignUp alignDown add32 kstart directMapLimit pageSize wordSize at *
      omega
    intro page member taken
    obtain ⟨i, here, rfl⟩ := pagesAt page member
    have inside : alignDown physAddr.toNat + i * pageSize < wordSize := by
      unfold pageSize wordSize at *
      omega
    -- an allocated frame is RAM, so the checks looked at the range
    have inRam : alignDown physAddr.toNat < pmmGetRamTop z := by
      rw [ramTop]
      refine Nat.lt_of_not_le fun above => ?_
      rw [notAllocated_above (by omega) inside] at taken
      cases taken
    refine Decidable.byContradiction fun outside => ?_
    by_cases ends : alignDown physAddr.toNat + bytes = wordSize
    · rw [highest ends inRam i here] at taken
      cases taken
    have noVga : ¬(0xA0000 ≤ alignDown physAddr.toNat ∧
        add32 (alignDown physAddr.toNat) bytes ≤ 0xC0000) := by
      unfold add32 pageSize wordSize at *
      omega
    rw [← straight i here, checked inRam noVga i here] at taken
    cases taken

/-- The memory of a fresh machine. -/
def freshPmm : Pmm.State := ⟨fun _ => 0, 0, 0, 0, 0, 0⟩

/-- The frame limits of a machine with 128 MB. -/
def smallRam : Zones := measureUsableRam 0x8000000#32 0x10000000#32

/-- The pages that a call on it maps for a driver without regions. -/
def mappedFresh (physAddr size : UInt32) : Option (Nat × List Nat) :=
  (sysMmapPhys 0x200000 smallRam freshPmm Regions.initial true physAddr.toNat size.toNat
    (some 1)).map fun result => (result.2.1, result.2.2.map (·.2))

/-- The registers of a device above the RAM are mapped as they should. -/
theorem mmap_phys_guarded_device :
    ∃ pages : List Nat, mappedFresh 0xFEC00010 0x1000 = some (0x80000010, pages) ∧
      (Guarded 0x200000 smallRam freshPmm (0xFEC00010 : UInt32).toNat (0x1000 : UInt32).toNat
          pages ↔ Fits smallRam freshPmm (0xFEC00010 : UInt32).toNat (0x1000 : UInt32).toNat) := by
  have maps : mappedFresh 0xFEC00010 0x1000 =
      some (0x80000010, [0xFEC00000, 0xFEC01000]) := by decide +kernel
  obtain ⟨⟨space', virt, mapped⟩, call, same⟩ := Option.map_eq_some_iff.mp maps
  obtain ⟨virtAt, pages⟩ := Prod.mk.inj same
  dsimp only at virtAt pages
  refine ⟨_, maps, ?_⟩
  rw [← pages]
  exact mmap_phys_guarded_iff (by decide) call (by rw [virtAt]; decide)

/-- Two pages from the last one on: the second is page zero.  And 2³² − 1 bytes from the
last byte of a page on: one page. -/
theorem mmap_phys_wraps : mappedFresh 0xFFFFF000 0x2000 = some (0x80000000, [0xFFFFF000, 0]) ∧
      mappedFresh 0xFEC00FFF 0xFFFFFFFF = some (0x80000FFF, [0xFEC00000]) ∧
      ¬Guarded 0x200000 smallRam freshPmm (0xFFFFF000 : UInt32).toNat (0x2000 : UInt32).toNat
        [0xFFFFF000, 0] ∧ ¬Guarded 0x200000 smallRam freshPmm (0xFEC00FFF : UInt32).toNat
        (0xFFFFFFFF : UInt32).toNat [0xFEC00000] := by
  refine ⟨by decide +kernel, by decide +kernel, fun guarded => ?_, fun guarded => ?_⟩
  · exact guarded.notZero 0 (by decide) rfl
  · exact absurd guarded.covers (by decide)

end MainDob.Kernel.MmapPhys
