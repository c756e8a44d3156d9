/-
Purpose: One slab page: what its bitmap says after a claim and a release, when
  the search for a free slot succeeds, and where its slots lie.
Main exports: PageOk, PageOk.claim_some, PageOk.claimed
-/
import Mathlib.Data.Finset.Card
import MainDob.Kernel.Kheap

namespace MainDob.Kernel.Kheap

open Lib
open Kpages (pageSize wordSize)
open List

/-! ### The classes -/

theorem class_fits {cls : Nat} (known : cls < numClasses) : 0 < classSize cls ∧ 0 < slotsThatFit
    (classSize cls) ∧ slotsThatFit (classSize cls) < 2 ^ 16 ∧ pageHeaderSize + (slotsThatFit
      (classSize cls) + 31) / 32 * 4 + slotsThatFit (classSize cls) * classSize cls ≤ pageSize := by
  have all : ∀ cls < numClasses, 0 < classSize cls ∧ 0 < slotsThatFit (classSize cls) ∧ slotsThatFit
      (classSize cls) < 2 ^ 16 ∧ pageHeaderSize + (slotsThatFit (classSize cls) + 31) / 32 * 4 +
        slotsThatFit (classSize cls) * classSize cls ≤ pageSize := by
    decide +kernel
  exact all cls known

theorem sizeToClass_spec {size cls : Nat} (found : sizeToClass size = some cls) :
    cls < numClasses ∧ size ≤ classSize cls := by
  obtain ⟨bound, fits, _⟩ := List.findIdx?_eq_some_iff_getElem.mp found
  refine ⟨bound, ?_⟩
  rw [classSize, getD_eq_getElem?_getD, List.getElem?_eq_getElem bound]
  exact of_decide_eq_true fits

/-! ### Bits -/

theorem getD_set_word (bitmap : List (BitVec 32)) (w v : Nat)
    (word : BitVec 32) (inside : v < bitmap.length) :
    (bitmap.set v word).getD w 0#32 = if w = v then word else bitmap.getD w 0#32 := by
  simp only [getD_eq_getElem?_getD]
  by_cases same : w = v
  · subst same
    simp [inside]
  · rw [List.getElem?_set_ne (Ne.symm same), if_neg same]

variable {idx : Nat}

section

variable (p : SlabPage) (inside : idx / 32 < p.bitmap.length) (other : Nat)
include p inside other

theorem slotTaken_setSlot :
    slotTaken { p with bitmap := setSlot p.bitmap idx } other =
      (decide (other = idx) || slotTaken p other) := by
  simp only [slotTaken, setSlot]
  rw [getD_set_word _ _ _ _ inside]
  by_cases sameWord : other / 32 = idx / 32
  · have bit : other % 32 = idx % 32 ↔ other = idx := by omega
    rw [if_pos sameWord, getLsbD_or_bit _ _ (Nat.mod_lt _ (by decide)),
      decide_eq_decide.mpr bit, sameWord]
  · have apart : other ≠ idx := fun same => sameWord (by rw [same])
    rw [if_neg sameWord]
    simp [apart]

theorem slotTaken_clearSlot :
    slotTaken { p with bitmap := clearSlot p.bitmap idx } other =
      (decide (other ≠ idx) && slotTaken p other) := by
  simp only [slotTaken, clearSlot]
  rw [getD_set_word _ _ _ _ inside]
  by_cases sameWord : other / 32 = idx / 32
  · have bit : other % 32 ≠ idx % 32 ↔ other ≠ idx := by omega
    rw [if_pos sameWord, getLsbD_and_not_bit _ _ (Nat.mod_lt _ (by decide)),
      decide_eq_decide.mpr bit, sameWord]
  · have apart : other ≠ idx := fun same => sameWord (by rw [same])
    rw [if_neg sameWord]
    simp [apart]

end

/-! ### The search for a free slot -/

section

variable {total : Nat} {words : List (BitVec 32)} {w : Nat}

theorem claimFrom_some (found : claimFrom total w words = some idx) : idx < total ∧
    w ≤ idx / 32 ∧ ∃ word, words[idx / 32 - w]? = some word ∧ word.getLsbD (idx % 32) = false := by
  induction words generalizing w with
  | nil => simp [claimFrom] at found
  | cons word _ ih =>
    rw [claimFrom] at found
    cases scan : scanBits (fun bit => decide (w * 32 + bit < total)) 32 (~~~word) with
    | some bit =>
      simp only [scan, Option.some.injEq] at found
      obtain ⟨isSet, below⟩ := scanBits_some scan
      have bound := BitVec.lt_of_getLsbD isSet
      have place : idx / 32 = w ∧ idx % 32 = bit := by omega
      refine ⟨?_, by omega, word, ?_, ?_⟩
      · rw [← found]
        exact of_decide_eq_true below
      · simp [place.1]
      · rw [place.2]
        simpa [bound] using isSet
    | none =>
      simp only [scan] at found
      obtain ⟨below, later, word', at_, clear⟩ := ih found
      refine ⟨below, by omega, word', ?_, clear⟩
      have shift : idx / 32 - w = (idx / 32 - (w + 1)) + 1 := by omega
      rw [shift, List.getElem?_cons_succ]
      exact at_

theorem claimFrom_none (missing : claimFrom total w words = none) (below : idx < total)
    (later : w ≤ idx / 32) {word : BitVec 32} (at_ : words[idx / 32 - w]? = some word) :
    word.getLsbD (idx % 32) = true := by
  induction words generalizing w with
  | nil => simp at at_
  | cons head _ ih =>
    rw [claimFrom] at missing
    cases scan : scanBits (fun bit => decide (w * 32 + bit < total)) 32 (~~~head) with
    | some => simp [scan] at missing
    | none =>
      simp only [scan] at missing
      rcases Nat.eq_or_lt_of_le later with here | beyond
      · rw [← here, Nat.sub_self, List.getElem?_cons_zero] at at_
        cases at_
        by_contra clear
        have refused := scanBits_none scan (idx % 32) (by
          simpa [Nat.mod_lt] using clear)
        have : w * 32 + idx % 32 = idx := by omega
        simp only [this, decide_eq_false_iff_not] at refused
        exact refused below
      · refine ih missing beyond ?_
        have shift : idx / 32 - w = (idx / 32 - (w + 1)) + 1 := by omega
        rw [shift, List.getElem?_cons_succ] at at_
        exact at_

end

/-! ### Pages in order -/

/-- A page whose header and bitmap agree. -/
structure PageOk (p : SlabPage) : Prop where
  cls : p.classIdx < numClasses
  total : p.totalSlots = slotsThatFit (classSize p.classIdx)
  words : p.bitmap.length = bitmapWords p
  count : p.freeCount = (clearSlots p).card

theorem freshPage_clear (cls idx : Nat) : slotTaken (freshPage cls) idx = false := by
  simp only [slotTaken, freshPage, getD_eq_getElem?_getD, List.getElem?_replicate]
  split <;> simp

theorem freshPage_ok {cls : Nat} (known : cls < numClasses) : PageOk (freshPage cls) where
  cls := known
  total := rfl
  words := length_replicate
  count := by
    rw [clearSlots, Finset.filter_true_of_mem fun idx _ => freshPage_clear cls idx]
    exact (Finset.card_range _).symm

section PageOk

variable {p : SlabPage}

theorem PageOk.word_bound (ok : PageOk p) (below : idx < p.totalSlots) :
    idx / 32 < p.bitmap.length := by
  rw [ok.words, bitmapWords]
  omega

theorem PageOk.free_le (ok : PageOk p) : p.freeCount ≤ p.totalSlots := by
  rw [ok.count]
  exact (Finset.card_filter_le _ _).trans (Finset.card_range _).le

theorem PageOk.fits (ok : PageOk p) : 0 < classSize p.classIdx ∧ 0 < p.totalSlots ∧
    p.totalSlots < 2 ^ 16 ∧ slotsOffset p + p.totalSlots * classSize p.classIdx ≤ pageSize := by
  have fits := class_fits ok.cls
  rw [← ok.total] at fits
  exact fits

theorem mem_clearSlots : idx ∈ clearSlots p ↔ idx < p.totalSlots ∧ slotTaken p idx = false := by
  simp [clearSlots]

theorem PageOk.drained_iff (ok : PageOk p) : p.freeCount = p.totalSlots ↔
    ∀ idx < p.totalSlots, slotTaken p idx = false := by
  rw [ok.count]
  constructor
  · intro full idx below
    have whole : clearSlots p = Finset.range p.totalSlots :=
      Finset.eq_of_subset_of_card_le (Finset.filter_subset _ _) (by rw [full, Finset.card_range])
    exact (mem_clearSlots.mp (whole ▸ Finset.mem_range.mpr below)).2
  · intro clear
    rw [clearSlots, Finset.filter_true_of_mem fun idx inside =>
      clear idx (Finset.mem_range.mp inside), Finset.card_range]

theorem PageOk.claim_some (ok : PageOk p) (free : 0 < p.freeCount) :
    ∃ idx, claimFreeSlot p = (some idx, { p with bitmap := setSlot p.bitmap idx }) ∧
      idx < p.totalSlots ∧ slotTaken p idx = false := by
  have whole : p.bitmap.take (bitmapWords p) = p.bitmap := by rw [← ok.words, take_length]
  cases search : claimFrom p.totalSlots 0 p.bitmap with
  | some idx =>
    obtain ⟨below, _, _, at_, clear⟩ := claimFrom_some search
    refine ⟨idx, ?_, below, ?_⟩
    · simp [claimFreeSlot, whole, search]
    rw [slotTaken, getD_eq_getElem?_getD]
    rw [Nat.sub_zero] at at_
    rw [at_]
    exact clear
  | none =>
    exfalso
    rw [ok.count, Finset.card_pos] at free
    obtain ⟨_, inside⟩ := free
    obtain ⟨below, clear⟩ := mem_clearSlots.mp inside
    have bound := ok.word_bound below
    have taken := claimFrom_none search below (Nat.zero_le _) (List.getElem?_eq_getElem bound)
    rw [slotTaken, getD_eq_getElem?_getD, List.getElem?_eq_getElem bound, Option.getD_some] at clear
    rw [taken] at clear
    cases clear

theorem countDown_eq {count : Nat} (positive : 0 < count)
    (small : count < 2 ^ 16) : countDown count = count - 1 := by
  unfold countDown
  omega

theorem countUp_eq {count : Nat} (small : count + 1 < 2 ^ 16) : countUp count = count + 1 := by
  unfold countUp
  exact Nat.mod_eq_of_lt small

/-- The page after a claim. -/
def claimedPage (p : SlabPage) (idx : Nat) : SlabPage :=
  { p with
    bitmap := setSlot p.bitmap idx
    freeCount := countDown p.freeCount }

/-- The page after a release. -/
def releasedPage (p : SlabPage) (idx : Nat) : SlabPage :=
  { p with
    bitmap := clearSlot p.bitmap idx
    freeCount := countUp p.freeCount }

theorem PageOk.claimed (ok : PageOk p) (below : idx < p.totalSlots)
    (clear : slotTaken p idx = false) : PageOk (claimedPage p idx) ∧
    (claimedPage p idx).freeCount = p.freeCount - 1 ∧ 0 < p.freeCount ∧ ∀ other, slotTaken
      (claimedPage p idx) other = (decide (other = idx) || slotTaken p other) := by
  have bits : ∀ other, slotTaken (claimedPage p idx) other =
      (decide (other = idx) || slotTaken p other) :=
    slotTaken_setSlot p (ok.word_bound below)
  have inside : idx ∈ clearSlots p := mem_clearSlots.mpr ⟨below, clear⟩
  have total : (claimedPage p idx).totalSlots = p.totalSlots := rfl
  have slots : clearSlots (claimedPage p idx) = (clearSlots p).erase idx := by
    ext other
    rw [mem_clearSlots, bits, total, Finset.mem_erase, mem_clearSlots]
    simp only [Bool.or_eq_false_iff, decide_eq_false_iff_not]
    exact ⟨fun ⟨low, apart, free⟩ => ⟨apart, low, free⟩,
      fun ⟨apart, low, free⟩ => ⟨low, apart, free⟩⟩
  have free : 0 < p.freeCount := by
    rw [ok.count]
    exact Finset.card_pos.mpr ⟨idx, inside⟩
  have count : (claimedPage p idx).freeCount = p.freeCount - 1 := by
    have most := ok.free_le
    have small := ok.fits.2.2.1
    exact countDown_eq free (by omega)
  refine ⟨⟨ok.cls, ok.total, ?_, ?_⟩, count, free, bits⟩
  · exact length_set.trans ok.words
  · rw [count, slots, Finset.card_erase_of_mem inside, ok.count]

theorem PageOk.released (ok : PageOk p) (below : idx < p.totalSlots)
    (taken : slotTaken p idx = true) : PageOk (releasedPage p idx) ∧
    (releasedPage p idx).freeCount = p.freeCount + 1 ∧ ∀ other, slotTaken
      (releasedPage p idx) other = (decide (other ≠ idx) && slotTaken p other) := by
  have bits : ∀ other, slotTaken (releasedPage p idx) other =
      (decide (other ≠ idx) && slotTaken p other) :=
    slotTaken_clearSlot p (ok.word_bound below)
  have outside : idx ∉ clearSlots p := by
    rw [mem_clearSlots, taken]
    exact fun both => nomatch both.2
  have total : (releasedPage p idx).totalSlots = p.totalSlots := rfl
  have slots : clearSlots (releasedPage p idx) = insert idx (clearSlots p) := by
    ext other
    rw [mem_clearSlots, bits, total, Finset.mem_insert, mem_clearSlots]
    by_cases same : other = idx
    · subst same
      simpa using below
    · simp [same]
  have card : (clearSlots (releasedPage p idx)).card = p.freeCount + 1 := by
    rw [slots, Finset.card_insert_of_notMem outside, ok.count]
  have count : (releasedPage p idx).freeCount = p.freeCount + 1 := by
    have most : (clearSlots (releasedPage p idx)).card ≤ p.totalSlots :=
      (Finset.card_filter_le _ _).trans (Finset.card_range _).le
    have small := ok.fits.2.2.1
    exact countUp_eq (by omega)
  refine ⟨⟨ok.cls, ok.total, ?_, ?_⟩, count, bits⟩
  · exact length_set.trans ok.words
  · rw [count, card]

/-! ### Where slots lie -/

/-- The address of a slot, without the 32-bit arithmetic. -/
def slotStart (virt : Nat) (p : SlabPage) (idx : Nat) : Nat :=
  virt + slotsOffset p + idx * classSize p.classIdx

theorem PageOk.slot_in_page (ok : PageOk p) (below : idx < p.totalSlots) (virt : Nat) :
    virt + slotsOffset p ≤ slotStart virt p idx ∧
      slotStart virt p idx + classSize p.classIdx ≤ virt + pageSize := by
  have room := ok.fits.2.2.2
  have part : (idx + 1) * classSize p.classIdx ≤
      p.totalSlots * classSize p.classIdx := Nat.mul_le_mul_right _ below
  rw [add_mul, one_mul] at part
  simp only [slotStart]
  omega

variable {virt : Nat}

theorem PageOk.slotAddress_eq (ok : PageOk p) (below : idx < p.totalSlots)
    (high : virt + pageSize ≤ wordSize) :
    slotAddress virt p idx (classSize p.classIdx) = slotStart virt p idx := by
  have inside := ok.slot_in_page below virt
  have positive := ok.fits.1
  exact Nat.mod_eq_of_lt (by simp only [slotStart] at inside ⊢; omega)

theorem pageBase_eq {addr : Nat} (aligned : pageSize ∣ virt) (from_ : virt ≤ addr)
    (before : addr < virt + pageSize) : pageBase addr = virt := by
  obtain ⟨number, rfl⟩ := aligned
  have index : addr / pageSize = number := by
    refine Nat.div_eq_of_lt_le ?_ ?_
    · rw [mul_comm]
      exact from_
    · rw [Nat.succ_mul, mul_comm number]
      exact before
  rw [pageBase, index, mul_comm]

theorem PageOk.slotDistance_eq (ok : PageOk p) (below : idx < p.totalSlots) :
    slotDistance virt p (slotStart virt p idx) = idx * classSize p.classIdx := by
  have inside := ok.slot_in_page below virt
  have page : 2 * pageSize ≤ wordSize := by decide
  have start : slotStart virt p idx - virt = slotsOffset p + idx * classSize p.classIdx := by
    simp only [slotStart]
    omega
  have positive : 0 < pageSize := by decide
  have small : idx * classSize p.classIdx < wordSize := by
    omega
  rw [slotDistance, start]
  have total : slotsOffset p + idx * classSize p.classIdx + wordSize -
      slotsOffset p = idx * classSize p.classIdx + wordSize := by omega
  rw [total, Nat.add_mod_right, Nat.mod_eq_of_lt small]

theorem PageOk.slot_of_distance (ok : PageOk p) {addr : Nat}
    (from_ : virt ≤ addr) (before : addr < virt + pageSize)
    (below : slotDistance virt p addr / classSize p.classIdx < p.totalSlots)
    (exact_ : slotDistance virt p addr % classSize p.classIdx = 0) :
    addr = slotStart virt p (slotDistance virt p addr / classSize p.classIdx) := by
  have positive := ok.fits.1
  have room := ok.fits.2.2.2
  have page : 2 * pageSize ≤ wordSize := by decide
  have multiple : slotDistance virt p addr / classSize p.classIdx *
      classSize p.classIdx = slotDistance virt p addr := by
    have := Nat.div_add_mod (slotDistance virt p addr) (classSize p.classIdx)
    rw [mul_comm]
    omega
  have near : slotDistance virt p addr < pageSize := by
    have := Nat.mul_lt_mul_of_pos_right below positive
    omega
  simp only [slotStart]
  -- a distance that wrapped would be at least the word size less a page
  by_cases forward : slotsOffset p ≤ addr - virt
  · have plain : slotDistance virt p addr = addr - virt - slotsOffset p := by
      have total : addr - virt + wordSize - slotsOffset p =
          (addr - virt - slotsOffset p) + wordSize := by omega
      rw [slotDistance, total, Nat.add_mod_right]
      exact Nat.mod_eq_of_lt (by omega)
    omega
  · exfalso
    have wrapped : slotDistance virt p addr = addr - virt + wordSize - slotsOffset p :=
      Nat.mod_eq_of_lt (by omega)
    omega

theorem slotStart_apart {one two : Nat} (virt : Nat) (p : SlabPage) (order : one < two) :
    slotStart virt p one + classSize p.classIdx ≤ slotStart virt p two := by
  have gap : (one + 1) * classSize p.classIdx ≤
      two * classSize p.classIdx := Nat.mul_le_mul_right _ order
  rw [add_mul, one_mul] at gap
  simp only [slotStart]
  omega

theorem PageOk.slotStart_inj (ok : PageOk p) {one two : Nat}
    (same : slotStart virt p one = slotStart virt p two) : one = two := by
  have positive := ok.fits.1
  rcases Nat.lt_trichotomy one two with below | equal | above
  · have := slotStart_apart virt p below
    omega
  · exact equal
  · have := slotStart_apart virt p above
    omega

end PageOk

end MainDob.Kernel.Kheap
