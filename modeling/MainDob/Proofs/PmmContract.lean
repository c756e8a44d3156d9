/-
Purpose: The frame allocator keeps its counters equal to its bitmap, hands out
  only free frames of the requested zone, never the same frame twice without a
  release in between, and reports exhaustion exactly.
Main exports: clearBits, CountersAgree, pmm_allocator_contract
-/
import MainDob.Kernel.Pmm
import Mathlib.Order.Interval.Finset.Nat
import Mathlib.Data.Finset.Card

namespace MainDob.Kernel.Pmm

open Lib
open Function

variable (z : Zones)

/-! ### The bitmap as a set of used frames -/

@[simp] theorem frameIsUsed_setUsed (s : State) (f g : Nat) :
    frameIsUsed (frameSetUsed z s f) g = (decide (g = f) || frameIsUsed s g) := by
  unfold frameIsUsed frameSetUsed
  by_cases sameWord : g / 32 = f / 32
  · have bit : g % 32 = f % 32 ↔ g = f := by omega
    simp only [sameWord, update_self]
    rw [getLsbD_or_bit _ _ (Nat.mod_lt _ (by decide)), decide_eq_decide.mpr bit]
  · have different : g ≠ f := by
      intro same
      exact sameWord (by rw [same])
    simp [update_of_ne sameWord, different]

@[simp] theorem frameIsUsed_setFree (s : State) (f g : Nat) :
    frameIsUsed (frameSetFree z s f) g = (decide (g ≠ f) && frameIsUsed s g) := by
  unfold frameIsUsed frameSetFree
  by_cases sameWord : g / 32 = f / 32
  · have bit : g % 32 ≠ f % 32 ↔ g ≠ f := by omega
    simp only [sameWord, update_self]
    rw [getLsbD_and_not_bit _ _ (Nat.mod_lt _ (by decide)), decide_eq_decide.mpr bit]
  · have different : g ≠ f := by
      intro same
      exact sameWord (by rw [same])
    simp [update_of_ne sameWord, different]

/-- Number of free frames in `[lo, hi)`. -/
def clearBits (s : State) (lo hi : Nat) : Nat :=
  ((Finset.Ico lo hi).filter (fun f => frameIsUsed s f = false)).card

theorem clearBits_le (s : State) (lo hi : Nat) : clearBits s lo hi ≤ hi - lo := by
  have bound := Finset.card_filter_le (Finset.Ico lo hi) (fun f => frameIsUsed s f = false)
  rwa [Nat.card_Ico] at bound

variable {s s' : State}

variable {hi lo : Nat}

theorem clearBits_congr (same : ∀ f, lo ≤ f → f < hi → frameIsUsed s' f = frameIsUsed s f) :
    clearBits s' lo hi = clearBits s lo hi := by
  unfold clearBits
  congr 1
  apply Finset.filter_congr
  intro f member
  rw [Finset.mem_Ico] at member
  rw [same f member.1 member.2]

variable {f : Nat}

theorem clearBits_setUsed (low : lo ≤ f) (high : f < hi) (free : frameIsUsed s f = false)
    (after : ∀ g, frameIsUsed s' g = (decide (g = f) || frameIsUsed s g)) :
    clearBits s' lo hi + 1 = clearBits s lo hi := by
  unfold clearBits
  have erased : (Finset.Ico lo hi).filter (fun g => frameIsUsed s' g = false) =
      ((Finset.Ico lo hi).filter (fun g => frameIsUsed s g = false)).erase f := by
    ext g
    simp only [Finset.mem_filter, Finset.mem_erase, after, Bool.or_eq_false_iff,
      decide_eq_false_iff_not]
    tauto
  rw [erased]
  apply Finset.card_erase_add_one
  simp [low, high, free]

theorem clearBits_setFree (low : lo ≤ f) (high : f < hi) (used : frameIsUsed s f = true)
    (after : ∀ g, frameIsUsed s' g = (decide (g ≠ f) && frameIsUsed s g)) :
    clearBits s' lo hi = clearBits s lo hi + 1 := by
  unfold clearBits
  have inserted : (Finset.Ico lo hi).filter (fun g => frameIsUsed s' g = false) =
      insert f ((Finset.Ico lo hi).filter (fun g => frameIsUsed s g = false)) := by
    ext g
    simp only [Finset.mem_filter, Finset.mem_insert, Finset.mem_Ico, after,
      Bool.and_eq_false_iff, decide_eq_false_iff_not, not_not]
    constructor
    · rintro ⟨range, same | free⟩
      · exact Or.inl same
      · exact Or.inr ⟨range, free⟩
    · rintro (same | ⟨range, free⟩)
      · subst same
        exact ⟨⟨low, high⟩, Or.inl rfl⟩
      · exact ⟨range, Or.inr free⟩
  rw [inserted, Finset.card_insert_of_notMem]
  simp [used]

/-- The two counters count the clear bits: `s_dma_free` those of the DMA zone
and `s_free_frames` those of both zones. -/
structure CountersAgree (s : State) : Prop where
  dma : s.dmaFree = clearBits s 0 z.dmaLimit
  all : s.freeFrames = clearBits s 0 z.totalFrames

variable {z}

section

variable (agree : CountersAgree z s)
include agree

theorem CountersAgree.setUsed (inside : f < z.totalFrames)
    (free : frameIsUsed s f = false) : CountersAgree z (frameSetUsed z s f) := by
  have total := z.total_le
  have after := frameIsUsed_setUsed z s f
  constructor
  · change (if f < z.dmaLimit then decrement s.dmaFree else s.dmaFree) = _
    have bound := clearBits_le s 0 z.dmaLimit
    have dma := z.dma_le
    rw [agree.dma]
    split
    · rename_i low
      have count := clearBits_setUsed (Nat.zero_le f) low free after
      unfold decrement
      unfold maxFrames at total
      omega
    · rename_i high
      apply Eq.symm
      apply clearBits_congr
      intro g _ below
      have different : g ≠ f := by omega
      simp [different]
  · change decrement s.freeFrames = _
    have bound := clearBits_le s 0 z.totalFrames
    have count := clearBits_setUsed (Nat.zero_le f) inside free after
    rw [agree.all]
    unfold decrement
    unfold maxFrames at total
    omega

theorem CountersAgree.setFree (inside : f < z.totalFrames)
    (used : frameIsUsed s f = true) : CountersAgree z (frameSetFree z s f) := by
  have total := z.total_le
  have after := frameIsUsed_setFree z s f
  constructor
  · change (if f < z.dmaLimit then increment s.dmaFree else s.dmaFree) = _
    have dma := z.dma_le
    rw [agree.dma]
    split
    · rename_i low
      have count := clearBits_setFree (Nat.zero_le f) low used after
      have bound := clearBits_le (frameSetFree z s f) 0 z.dmaLimit
      unfold increment
      unfold maxFrames at total
      omega
    · rename_i high
      apply Eq.symm
      apply clearBits_congr
      intro g _ below
      have different : g ≠ f := by omega
      simp [different]
  · change increment s.freeFrames = _
    have count := clearBits_setFree (Nat.zero_le f) inside used after
    have bound := clearBits_le (frameSetFree z s f) 0 z.totalFrames
    rw [agree.all]
    unfold increment
    unfold maxFrames at total
    omega

theorem CountersAgree.of_same (bitmap : s'.bitmap = s.bitmap) (dmaFree : s'.dmaFree = s.dmaFree)
    (freeFrames : s'.freeFrames = s.freeFrames) : CountersAgree z s' := by
  have same : ∀ f, frameIsUsed s' f = frameIsUsed s f := by
    intro f
    unfold frameIsUsed
    rw [bitmap]
  constructor
  · rw [dmaFree, agree.dma]
    exact (clearBits_congr (fun f _ _ => same f)).symm
  · rw [freeFrames, agree.all]
    exact (clearBits_congr (fun f _ _ => same f)).symm

end

/-! ### The free-frame search -/

variable {start stop : Nat}

variable {w : Nat}

theorem scanWord_some (found : scanWord s start stop w = some f) :
    start ≤ f ∧ f < stop ∧ frameIsUsed s f = false := by
  unfold scanWord at found
  rw [Option.map_eq_some_iff] at found
  obtain ⟨bit, scanned, rfl⟩ := found
  obtain ⟨clear, accepted⟩ := scanBits_some scanned
  have inside : bit < 32 := BitVec.lt_of_getLsbD clear
  rw [Bool.and_eq_true, decide_eq_true_eq, decide_eq_true_eq] at accepted
  refine ⟨accepted.1, accepted.2, ?_⟩
  unfold frameIsUsed
  rw [show (w * 32 + bit) / 32 = w by omega,
    show (w * 32 + bit) % 32 = bit by omega]
  simpa [inside] using clear

theorem scanWord_none (missing : scanWord s start stop w = none) (word : f / 32 = w)
    (low : start ≤ f) (high : f < stop) : frameIsUsed s f = true := by
  unfold scanWord at missing
  rw [Option.map_eq_none_iff] at missing
  by_contra free
  have clear : (~~~ s.bitmap w).getLsbD (f % 32) = true := by
    unfold frameIsUsed at free
    rw [word] at free
    simpa [Nat.mod_lt] using free
  have refused := scanBits_none missing (f % 32) clear
  rw [show w * 32 + f % 32 = f by omega] at refused
  simp [low, high] at refused

variable {count : Nat}

theorem scanWords_some (found : scanWords s start stop count w = some f) :
    start ≤ f ∧ f < stop ∧ frameIsUsed s f = false := by
  induction count generalizing w with
  | zero => simp [scanWords] at found
  | succ _ ih =>
    rw [scanWords] at found
    cases scanned : scanWord s start stop w with
    | some =>
      rw [scanned] at found
      cases found
      exact scanWord_some scanned
    | none =>
      rw [scanned] at found
      exact ih found

theorem scanWords_none (missing : scanWords s start stop count w = none) (first : w ≤ f / 32)
    (last : f / 32 < w + count) (low : start ≤ f) (high : f < stop) : frameIsUsed s f = true := by
  induction count generalizing w with
  | zero => omega
  | succ _ ih =>
    rw [scanWords] at missing
    cases scanned : scanWord s start stop w with
    | some => simp [scanned] at missing
    | none =>
      rw [scanned] at missing
      rcases Nat.eq_or_lt_of_le first with here | later
      · exact scanWord_none scanned here.symm low high
      · exact ih missing later (by omega)

variable {hint : Nat}

theorem zoneFindFree_some (found : zoneFindFree s start stop hint = some f) :
    start ≤ f ∧ f < stop ∧ frameIsUsed s f = false := by
  unfold zoneFindFree at found
  dsimp only at found
  split at found
  · rename_i first scanned
    cases found
    exact scanWords_some scanned
  · exact scanWords_some found

theorem zoneFindFree_none (missing : zoneFindFree s start stop hint = none)
    (low : start ≤ f) (high : f < stop) : frameIsUsed s f = true := by
  unfold zoneFindFree at missing
  dsimp only at missing
  generalize fromEq : (if start ≤ hint ∧ hint < stop then hint else start) = from_ at missing
  have fromLow : start ≤ from_ := by
    rw [← fromEq]
    split <;> omega
  split at missing
  · simp at missing
  rename_i firstPass
  by_cases upper : from_ ≤ f
  · exact scanWords_none firstPass (by omega) (by omega) low high
  · exact scanWords_none missing (by omega) (by omega) low high

variable {base : Nat}

theorem findRun_some {n left run begin_ : Nat} (adjacent : begin_ + run = f) (free : ∀ i, i < run →
    frameIsUsed s (begin_ + i) = false) (found : findRun s n left f run begin_ = some base) :
    begin_ ≤ base ∧ base + n ≤ f + left ∧ ∀ i, i < n → frameIsUsed s (base + i) = false := by
  -- `begin_ .. f` is the free run in hand; a used frame restarts it after
  -- itself.
  induction left generalizing f run begin_ with
  | zero => simp [findRun] at found
  | succ _ ih =>
    rw [findRun] at found
    split at found
    · obtain ⟨low, high, clear⟩ := ih (Nat.add_zero _) (by omega) found
      exact ⟨by omega, by omega, clear⟩
    rename_i here
    have extended : ∀ i, i < run + 1 → frameIsUsed s (begin_ + i) = false := by
      intro i inside
      rcases Nat.eq_or_lt_of_le (Nat.le_of_lt_succ inside) with last | before
      · rw [last, adjacent]
        simpa using here
      · exact free i before
    split at found
    · rename_i complete
      cases found
      exact ⟨Nat.le_refl _, by omega, by rwa [complete] at extended⟩
    · obtain ⟨low, high, clear⟩ := ih (by omega) extended found
      exact ⟨low, by omega, clear⟩

theorem zoneFindContiguous_some {n : Nat}
    (found : zoneFindContiguous s start stop n = some base) (positive : 0 < n) :
    start ≤ base ∧ base + n ≤ stop ∧ ∀ i, i < n → frameIsUsed s (base + i) = false := by
  have none_yet : ∀ i, i < 0 → frameIsUsed s (start + i) = false := by omega
  obtain ⟨low, high, clear⟩ := findRun_some (add_zero start) none_yet found
  exact ⟨low, by omega, clear⟩

/-! ### One request -/

variable (z)

/-- Frame `f` belongs to the search range of the zone. -/
def Zone.Has (zone : Zone) (f : Nat) : Prop := zone.start z ≤ f ∧ f < zone.stop z

/-- The zones a request with these flags may be served from. -/
def mayUse (zoneFlags : BitVec 32) : List Zone :=
  if wantsDma zoneFlags then [.dma] else [.dma, .normal]

variable {z}

variable {zone : Zone}

theorem Zone.Has.lt_total (inside : zone.Has z f) : 0 < f ∧ f < z.totalFrames := by
  have dma := z.dma_le
  have ceiling := z.ceiling_le
  have positive := z.dma_pos
  cases zone with
  | dma =>
    have low : 1 ≤ f := inside.1
    have high : f < z.dmaLimit := inside.2
    omega
  | normal =>
    have low : z.dmaLimit ≤ f := inside.1
    have high : f < z.allocCeiling := inside.2
    omega

theorem addrToFrame_frameToAddr (inside : f < maxFrames) : addrToFrame (frameToAddr f) = f := by
  unfold addrToFrame frameToAddr pageShift
  unfold maxFrames at inside
  simp only [BitVec.toNat_ushiftRight, BitVec.toNat_shiftLeft, BitVec.toNat_ofNat,
    Nat.shiftLeft_eq, Nat.shiftRight_eq_div_pow]
  omega

theorem frameToAddr_ne_zero (positive : 0 < f) (inside : f < maxFrames) : frameToAddr f ≠ 0#32 := by
  intro zero
  have back := addrToFrame_frameToAddr inside
  rw [zero] at back
  have none_frame : addrToFrame 0#32 = 0 := by decide
  omega

theorem Zone.Has.addr (inside : zone.Has z f) :
    frameToAddr f ≠ 0#32 ∧ addrToFrame (frameToAddr f) = f := by
  obtain ⟨positive, total⟩ := inside.lt_total
  have bound := z.total_le
  exact ⟨frameToAddr_ne_zero positive (by omega), addrToFrame_frameToAddr (by omega)⟩

theorem frameIsUsed_setHint (zone : Zone) (s : State) (hint f : Nat) :
    frameIsUsed (zone.setHint s hint) f = frameIsUsed s f := by
  cases zone <;> rfl

theorem CountersAgree.setHint (agree : CountersAgree z s) (zone : Zone)
    (hint : Nat) : CountersAgree z (zone.setHint s hint) := by
  cases zone <;> exact agree.of_same rfl rfl rfl

/-- What taking one frame of a zone can do: nothing when the zone is full, and
otherwise mark one free frame of the zone. -/
inductive Took (zone : Zone) (s : State) : BitVec 32 × State → Prop where
  | full (used : ∀ f, zone.Has z f → frameIsUsed s f = true) :
      Took zone s (0#32, s)
  | frame (f hint : Nat) (inside : zone.Has z f)
      (free : frameIsUsed s f = false) :
      Took zone s (frameToAddr f, zone.setHint (frameSetUsed z s f) hint)

theorem takeFrame_took (zone : Zone) (s : State) : Took (z := z) zone s (takeFrame z zone s) := by
  unfold takeFrame
  cases found : zoneFindFree s (zone.start z) (zone.stop z) (zone.hint s) with
  | none => exact .full (fun f inside => zoneFindFree_none found inside.1 inside.2)
  | some f =>
    obtain ⟨low, high, free⟩ := zoneFindFree_some found
    exact .frame f (f + 1) ⟨low, high⟩ free

variable (z) in
/-- What a single-frame allocation must do: report 0 exactly when no zone it
may use has a free frame, and otherwise mark exactly one free frame of such a
zone and return its address. -/
structure AllocFrameOk (zoneFlags : BitVec 32) (s : State)
    (outcome : BitVec 32 × State) : Prop where
  zero_iff : outcome.1 = 0#32 ↔
    ∀ zone ∈ mayUse zoneFlags, ∀ f, zone.Has z f → frameIsUsed s f = true
  full : outcome.1 = 0#32 → outcome.2 = s
  taken : outcome.1 ≠ 0#32 → ∃ zone ∈ mayUse zoneFlags,
    zone.Has z (addrToFrame outcome.1) ∧ outcome.1 = frameToAddr (addrToFrame outcome.1) ∧
      frameIsUsed s (addrToFrame outcome.1) = false ∧
      ∀ g, frameIsUsed outcome.2 g = (decide (g = addrToFrame outcome.1) || frameIsUsed s g)

variable {zoneFlags : BitVec 32}

theorem AllocFrameOk.of_frame
    (member : zone ∈ mayUse zoneFlags) (inside : zone.Has z f) (free : frameIsUsed s f = false) :
    AllocFrameOk z zoneFlags s (frameToAddr f, zone.setHint (frameSetUsed z s f) hint) := by
  obtain ⟨nonzero, back⟩ := inside.addr
  refine ⟨⟨fun zero => absurd zero nonzero, fun used => ?_⟩,
    fun zero => absurd zero nonzero, fun _ => ⟨zone, member, ?_⟩⟩
  · rw [used zone member f inside] at free
    cases free
  · simp only [back]
    refine ⟨inside, trivial, free, fun g => ?_⟩
    rw [frameIsUsed_setHint, frameIsUsed_setUsed]

theorem tryZones_ok {s : State} (first second : Zone)
    (zones : ∀ zone, zone ∈ mayUse zoneFlags ↔ zone = first ∨ zone = second) :
    AllocFrameOk z zoneFlags s (match takeFrame z first s with
      | (pa, s') => if pa = 0#32 then takeFrame z second s' else (pa, s')) := by
  have firstTook := takeFrame_took (z := z) first s
  generalize takeFrame z first s = outcome at firstTook
  cases firstTook with
  | frame _ _ inside free =>
    obtain ⟨nonzero, _⟩ := inside.addr
    simp only [if_neg nonzero]
    exact .of_frame ((zones first).mpr (Or.inl rfl)) inside free
  | full firstUsed =>
    simp only [if_true]
    have secondTook := takeFrame_took (z := z) second s
    generalize takeFrame z second s = outcome at secondTook
    cases secondTook with
    | frame _ _ inside free => exact .of_frame ((zones second).mpr (Or.inr rfl)) inside free
    | full secondUsed =>
      refine ⟨⟨fun _ zone member f inside => ?_, fun _ => rfl⟩,
        fun _ => rfl, fun nonzero => absurd rfl nonzero⟩
      rcases (zones zone).mp member with same | same
      · subst same
        exact firstUsed f inside
      · subst same
        exact secondUsed f inside

theorem pmmAllocFrame_ok (zoneFlags : BitVec 32) (s : State) :
    AllocFrameOk z zoneFlags s (pmmAllocFrame z zoneFlags s) := by
  unfold pmmAllocFrame
  by_cases dma : wantsDma zoneFlags = true
  · rw [if_pos dma]
    have zones : mayUse zoneFlags = [.dma] := by
      unfold mayUse
      rw [if_pos dma]
    have took := takeFrame_took (z := z) .dma s
    generalize takeFrame z .dma s = outcome at took
    cases took with
    | frame _ _ inside free => exact .of_frame (by simp [zones]) inside free
    | full used =>
      refine ⟨⟨fun _ zone member f inside => ?_, fun _ => rfl⟩,
        fun _ => rfl, fun nonzero => absurd rfl nonzero⟩
      rw [zones, List.mem_singleton] at member
      subst member
      exact used f inside
  · rw [if_neg dma]
    have zones : mayUse zoneFlags = [.dma, .normal] := by
      unfold mayUse
      rw [if_neg dma]
    split
    · exact tryZones_ok .dma .normal (by simp [zones])
    · exact tryZones_ok .normal .dma (by simp [zones, or_comm])

theorem takeFrame_countersAgree (agree : CountersAgree z s) (zone : Zone) :
    CountersAgree z (takeFrame z zone s).2 := by
  have took := takeFrame_took (z := z) zone s
  generalize takeFrame z zone s = outcome at took
  cases took with
  | full => exact agree
  | frame _ hint inside free => exact (agree.setUsed inside.lt_total.2 free).setHint zone hint

theorem pmmAllocFrame_countersAgree (agree : CountersAgree z s) (zoneFlags : BitVec 32) :
    CountersAgree z (pmmAllocFrame z zoneFlags s).2 := by
  have order : ∀ first second : Zone, CountersAgree z (match takeFrame z first s with
      | (pa, s') =>
        if pa = 0#32 then takeFrame z second s' else (pa, s')).2 := by
    intro first second
    have one := takeFrame_countersAgree agree first
    dsimp only
    split
    · exact takeFrame_countersAgree one second
    · exact one
  unfold pmmAllocFrame
  split
  · exact takeFrame_countersAgree agree .dma
  split
  · exact order .dma .normal
  · exact order .normal .dma

/-! ### Runs of frames -/

theorem frameIsUsed_setUsedRun (base count : Nat) (s : State) (g : Nat) : frameIsUsed
    (setUsedRun z base count s) g = (decide (base ≤ g ∧ g < base + count) || frameIsUsed s g) := by
  induction count with
  | zero =>
    have empty : decide (base ≤ g ∧ g < base + 0) = false := by
      rw [decide_eq_false_iff_not]
      omega
    rw [setUsedRun, empty, Bool.false_or]
  | succ _ ih =>
    rw [setUsedRun, frameIsUsed_setUsed, ih, ← Bool.or_assoc, ← Bool.decide_or]
    congr 2
    apply propext
    omega

theorem setUsedRun_countersAgree (agree : CountersAgree z s) (inside : base + count ≤ z.totalFrames)
    (free : ∀ i, i < count → frameIsUsed s (base + i) = false) :
    CountersAgree z (setUsedRun z base count s) := by
  induction count with
  | zero => exact agree
  | succ count ih =>
    have before := ih (by omega) (fun i bound => free i (by omega))
    refine before.setUsed (by omega) ?_
    rw [frameIsUsed_setUsedRun, free count (by omega)]
    simp

theorem findContiguous_some (found : findContiguous z count zoneFlags s = some base)
    (positive : 0 < count) : ∃ zone ∈ mayUse zoneFlags,
    ∀ i, i < count → zone.Has z (base + i) ∧ frameIsUsed s (base + i) = false := by
  have one : ∀ zone : Zone, zoneFindContiguous s (zone.start z) (zone.stop z) count = some base →
      ∀ i, i < count → zone.Has z (base + i) ∧ frameIsUsed s (base + i) = false := by
    intro zone located i inside
    obtain ⟨low, high, free⟩ := zoneFindContiguous_some located positive
    exact ⟨⟨by omega, by omega⟩, free i inside⟩
  unfold findContiguous at found
  unfold mayUse
  by_cases dma : wantsDma zoneFlags = true
  · rw [if_pos dma] at found ⊢
    exact ⟨.dma, by simp, one .dma found⟩
  rw [if_neg dma] at found ⊢
  split at found
  · split at found
    · rename_i located
      cases found
      exact ⟨.dma, by simp, one .dma located⟩
    · exact ⟨.normal, by simp, one .normal found⟩
  · split at found
    · rename_i located
      cases found
      exact ⟨.normal, by simp, one .normal located⟩
    · exact ⟨.dma, by simp, one .dma found⟩

variable (z) in
/-- What a contiguous allocation must do: every frame of a returned run was
free, lies in a zone the request may use and is marked afterwards. -/
def AllocContiguousOk (count zoneFlags : BitVec 32) (s : State)
    (outcome : BitVec 32 × State) : Prop :=
  (outcome.1 = 0#32 → outcome.2 = s) ∧
  (outcome.1 ≠ 0#32 → ∃ zone ∈ mayUse zoneFlags, ∀ i, i < count.toNat →
    zone.Has z (addrToFrame outcome.1 + i) ∧ frameIsUsed s (addrToFrame outcome.1 + i) = false ∧
      frameIsUsed outcome.2 (addrToFrame outcome.1 + i) = true)

theorem pmmAllocContiguous_cases (count zoneFlags : BitVec 32) (s : State) :
    pmmAllocContiguous z count zoneFlags s = (0#32, s) ∨ ∃ zone ∈ mayUse zoneFlags,
    ∃ base, (∀ i, i < count.toNat → zone.Has z (base + i) ∧ frameIsUsed s (base + i) = false) ∧
        zone.Has z base ∧ pmmAllocContiguous z count zoneFlags s =
          (frameToAddr base, setUsedRun z base count.toNat s) := by
  unfold pmmAllocContiguous
  split
  · exact Or.inl rfl
  rename_i nonzero
  have positive : 0 < count.toNat := by
    rcases Nat.eq_zero_or_pos count.toNat with zero | positive
    · exact absurd (BitVec.eq_of_toNat_eq (by simpa using zero)) nonzero
    · exact positive
  cases found : findContiguous z count.toNat zoneFlags s with
  | none => exact Or.inl rfl
  | some base =>
    obtain ⟨zone, member, run⟩ := findContiguous_some found positive
    exact Or.inr ⟨zone, member, base, run, (run 0 positive).1, rfl⟩

theorem pmmAllocContiguous_ok (count zoneFlags : BitVec 32) (s : State) :
    AllocContiguousOk z count zoneFlags s (pmmAllocContiguous z count zoneFlags s) := by
  rcases pmmAllocContiguous_cases (z := z) count zoneFlags s with
    nothing | ⟨zone, member, base, run, inside, outcome⟩
  · rw [nothing]
    exact ⟨fun _ => rfl, fun nonzero => absurd rfl nonzero⟩
  rw [outcome]
  obtain ⟨nonzero, back⟩ := inside.addr
  refine ⟨fun zero => absurd zero nonzero, fun _ => ⟨zone, member, ?_⟩⟩
  intro i bound
  simp only [back]
  refine ⟨(run i bound).1, (run i bound).2, ?_⟩
  rw [frameIsUsed_setUsedRun]
  simp [bound]

theorem pmmAllocContiguous_countersAgree (agree : CountersAgree z s) (count zoneFlags : BitVec 32) :
    CountersAgree z (pmmAllocContiguous z count zoneFlags s).2 := by
  rcases pmmAllocContiguous_cases (z := z) count zoneFlags s with
    nothing | ⟨zone, member, base, run, inside, outcome⟩
  · rw [nothing]
    exact agree
  rw [outcome]
  refine setUsedRun_countersAgree agree ?_ (fun i bound => (run i bound).2)
  have here := inside.lt_total.2
  rcases Nat.eq_zero_or_pos count.toNat with zero | positive
  · omega
  · have last := (run (count.toNat - 1) (by omega)).1.lt_total.2
    omega

/-! ### Releases and reservations -/

variable (z) in
/-- A release the allocator turns down: frame 0, a frame above the ceiling, or
a frame that is free already. -/
def Refused (s : State) (f : Nat) : Prop :=
  f = 0 ∨ z.allocCeiling ≤ f ∨ frameIsUsed s f = false

variable (z) in
/-- The frames whose release is looked at: not frame 0, and below the ceiling. -/
def Known (f : Nat) : Prop := f ≠ 0 ∧ f < z.allocCeiling

instance (f : Nat) : Decidable (Known z f) := inferInstanceAs (Decidable (_ ∧ _))

/-- So many double frees were caught, and nothing else happened. -/
def State.caught (s : State) (frees : Nat) : State :=
  { s with doubleFreeCaught := increment^[frees] s.doubleFreeCaught }

/-- A refused release is counted exactly when the frame is known: then it was free. -/
theorem releaseFrameChecked_refused (refused : Refused z s f) :
    releaseFrameChecked z s f = s.caught (if Known z f then 1 else 0) := by
  unfold releaseFrameChecked
  split
  · next outside =>
      rw [if_neg fun known => by unfold Known at known; omega]
      rfl
  · next inside =>
      have free : frameIsUsed s f = false := by
        rcases refused with zero | above | free
        · exact absurd (Or.inl zero) inside
        · exact absurd (Or.inr above) inside
        · exact free
      have known : Known z f := by unfold Known; omega
      rw [if_pos known, free]
      rfl

theorem frameIsUsed_releaseFrameChecked (s : State) (f g : Nat) :
    frameIsUsed (releaseFrameChecked z s f) g =
      (frameIsUsed s g && decide (¬ (g = f ∧ f ≠ 0 ∧ f < z.allocCeiling))) := by
  by_cases refused : Refused z s f
  · rw [releaseFrameChecked_refused refused]
    change frameIsUsed s g = _
    by_cases used : frameIsUsed s g = true
    · have kept : ¬ (g = f ∧ f ≠ 0 ∧ f < z.allocCeiling) := by
        rintro ⟨same, nonzero, below⟩
        subst same
        rcases refused with zero | above | free
        · exact nonzero zero
        · omega
        · simp [used] at free
      simp [kept]
    · simp [used]
  · have inside : ¬ (f = 0 ∨ z.allocCeiling ≤ f) := by
      intro outside
      exact refused (by unfold Refused; tauto)
    have used : frameIsUsed s f = true := by
      by_contra free
      exact refused (Or.inr (Or.inr (by simpa using free)))
    unfold releaseFrameChecked
    rw [if_neg inside, if_pos used, frameIsUsed_setFree, Bool.and_comm]
    congr 2
    apply propext
    constructor
    · rintro different ⟨same, _⟩
      exact different same
    · intro kept same
      exact kept ⟨same, by omega, by omega⟩

theorem releaseFrameChecked_countersAgree (agree : CountersAgree z s) (f : Nat) :

    CountersAgree z (releaseFrameChecked z s f) := by
  unfold releaseFrameChecked
  split
  · exact agree
  have ceiling := z.ceiling_le
  split
  · rename_i used
    exact agree.setFree (by omega) used
  · exact agree.of_same rfl rfl rfl

theorem releaseRun_countersAgree (agree : CountersAgree z s) (base count : Nat) :
    CountersAgree z (releaseRun z base count s) := by
  induction count with
  | zero => exact agree
  | succ _ ih => exact releaseFrameChecked_countersAgree ih _

variable (z) in
/-- How many of the frames from `base` on are known. -/
def knownAmong (base count : Nat) : Nat :=
  (List.range count).countP fun i => Known z ((base + i) % 2 ^ 32)

/-- A run that is refused as a whole counts a double free for each known frame. -/
theorem releaseRun_refused (refused : ∀ i, i < count → Refused z s ((base + i) % 2 ^ 32)) :
    releaseRun z base count s = s.caught (knownAmong z base count) := by
  induction count with
  | zero => rfl
  | succ count ih =>
    have last : Refused z (s.caught (knownAmong z base count)) ((base + count) % 2 ^ 32) :=
      refused count (Nat.lt_succ_self count)
    rw [releaseRun, ih fun i bound => refused i (Nat.lt_succ_of_lt bound),
      releaseFrameChecked_refused last, knownAmong, knownAmong, List.range_succ,
      List.countP_append, List.countP_singleton]
    simp only [State.caught, decide_eq_true_eq]
    rw [← Function.iterate_add_apply, add_comm]

theorem frameIsUsed_releaseRun_kept {g : Nat} (kept : ∀ i, i < count → g ≠ (base + i) % 2 ^ 32) :
    frameIsUsed (releaseRun z base count s) g = frameIsUsed s g := by
  induction count with
  | zero => rfl
  | succ count ih =>
    have different : ¬ (g = (base + count) % 2 ^ 32 ∧ (base + count) % 2 ^ 32 ≠ 0 ∧
        (base + count) % 2 ^ 32 < z.allocCeiling) :=
      fun released => kept count (by omega) released.1
    rw [releaseRun, frameIsUsed_releaseFrameChecked, ih (fun i bound => kept i (by omega)),
      decide_eq_true different, Bool.and_true]

theorem markRun_spec {left : Nat} (agree : CountersAgree z s) (inside : f + left ≤ z.totalFrames ∨
    left = 0) : CountersAgree z (markRun z left f s) ∧ ∀ g, frameIsUsed (markRun z left f s) g =
        (decide (f ≤ g ∧ g < f + left) || frameIsUsed s g) := by
  induction left generalizing f s with
  | zero =>
    refine ⟨agree, fun g => ?_⟩
    have empty : decide (f ≤ g ∧ g < f + 0) = false := by
      rw [decide_eq_false_iff_not]
      omega
    rw [markRun, empty, Bool.false_or]
  | succ left ih =>
    rw [markRun]
    by_cases used : frameIsUsed s f = true
    · rw [if_pos used]
      obtain ⟨counters, bits⟩ := ih agree (by omega : f + 1 + left ≤ z.totalFrames ∨ left = 0)
      refine ⟨counters, fun g => ?_⟩
      rw [bits g]
      by_cases here : g = f
      · subst here
        simp [used]
      · congr 2
        apply propext
        omega
    · have free : frameIsUsed s f = false := by simpa using used
      rw [if_neg used]
      obtain ⟨counters, bits⟩ := ih (agree.setUsed (by omega) free)
        (by omega : f + 1 + left ≤ z.totalFrames ∨ left = 0)
      refine ⟨counters, fun g => ?_⟩
      rw [bits g, frameIsUsed_setUsed, ← Bool.or_assoc, ← Bool.decide_or]
      congr 2
      apply propext
      omega

/-! ### Whole runs -/

variable (z) in
/-- The contract of one request in state `s`. -/
def RequestOk (s : State) : Request → Prop
  | .allocFrame zoneFlags =>
    AllocFrameOk z zoneFlags s (pmmAllocFrame z zoneFlags s)
  | .allocContiguous count zoneFlags =>
    AllocContiguousOk z count zoneFlags s (pmmAllocContiguous z count zoneFlags s)
  | .freeFrame physAddr =>
    (physAddr &&& pageMask ≠ 0#32 → pmmFreeFrame z physAddr s = s) ∧
    (physAddr &&& pageMask = 0#32 → Refused z s (addrToFrame physAddr) →
      pmmFreeFrame z physAddr s = s.caught (if Known z (addrToFrame physAddr) then 1 else 0))
  | .freeContiguous physAddr count =>
    (physAddr &&& pageMask ≠ 0#32 → pmmFreeContiguous z physAddr count s = s) ∧
    (physAddr &&& pageMask = 0#32 →
      (∀ i, i < count.toNat → Refused z s ((addrToFrame physAddr + i) % 2 ^ 32)) →
      pmmFreeContiguous z physAddr count s =
        s.caught (knownAmong z (addrToFrame physAddr) count.toNat))
  | .markUsed physAddr size => ∀ g,
      frameIsUsed (pmmMarkUsed z physAddr size s) g = (decide
        (markFirst physAddr ≤ g ∧ g < markEnd physAddr size ∧ g < z.totalFrames) || frameIsUsed s g)

section

variable (agree : CountersAgree z s)
include agree

theorem pmmMarkUsed_spec (physAddr size : BitVec 32) :

    CountersAgree z (pmmMarkUsed z physAddr size s) ∧ RequestOk z s (.markUsed physAddr size) := by
  obtain ⟨counters, bits⟩ := markRun_spec agree (by omega : markFirst physAddr +
        (min (markEnd physAddr size) z.totalFrames - markFirst physAddr) ≤ z.totalFrames ∨
      min (markEnd physAddr size) z.totalFrames - markFirst physAddr = 0)
  refine ⟨counters, fun g => ?_⟩
  unfold pmmMarkUsed
  rw [bits g]
  congr 2
  apply propext
  omega

theorem exec_countersAgree (request : Request) : CountersAgree z (exec z request s).2 := by
  cases request with
  | allocFrame zoneFlags => exact pmmAllocFrame_countersAgree agree zoneFlags
  | allocContiguous count zoneFlags => exact pmmAllocContiguous_countersAgree agree count zoneFlags
  | freeFrame physAddr =>
    change CountersAgree z (pmmFreeFrame z physAddr s)
    unfold pmmFreeFrame
    split
    · exact agree
    · exact releaseFrameChecked_countersAgree agree _
  | freeContiguous physAddr count =>
    change CountersAgree z (pmmFreeContiguous z physAddr count s)
    unfold pmmFreeContiguous
    split
    · exact agree
    · exact releaseRun_countersAgree agree _ _
  | markUsed physAddr size => exact (pmmMarkUsed_spec agree physAddr size).1

theorem execAll_countersAgree
    (requests : List Request) : CountersAgree z (execAll z requests s) := by
  induction requests generalizing s with
  | nil => exact agree
  | cons request _ ih => exact ih (exec_countersAgree agree request)

theorem requestOk_of_countersAgree (request : Request) : RequestOk z s request := by
  cases request with
  | allocFrame zoneFlags => exact pmmAllocFrame_ok zoneFlags s
  | allocContiguous count zoneFlags => exact pmmAllocContiguous_ok count zoneFlags s
  | freeFrame =>
    refine ⟨fun odd => if_pos odd, fun aligned refused => ?_⟩
    unfold pmmFreeFrame
    rw [if_neg (not_not.mpr aligned), releaseFrameChecked_refused refused]
  | freeContiguous =>
    refine ⟨fun odd => if_pos odd, fun aligned refused => ?_⟩
    unfold pmmFreeContiguous
    rw [if_neg (not_not.mpr aligned), releaseRun_refused refused]
  | markUsed physAddr size => exact (pmmMarkUsed_spec agree physAddr size).2

end

/-- The answer of the request hands out frame `f`. -/
def Returns : Request → BitVec 32 → Nat → Prop
  | .allocFrame _, answer, f => answer ≠ 0#32 ∧ f = addrToFrame answer
  | .allocContiguous count _, answer, f =>
    answer ≠ 0#32 ∧ ∃ i, i < count.toNat ∧ f = addrToFrame answer + i
  | _, _, _ => False

/-- The request asks for the release of frame `f`. -/
def Releases : Request → Nat → Prop
  | .freeFrame physAddr, f =>
    physAddr &&& pageMask = 0#32 ∧ f = addrToFrame physAddr
  | .freeContiguous physAddr count, f =>
    physAddr &&& pageMask = 0#32 ∧ ∃ i, i < count.toNat ∧ f = (addrToFrame physAddr + i) % 2 ^ 32
  | _, _ => False

theorem returns_free_then_used {request : Request}
    (returned : Returns request (exec z request s).1 f) :
    frameIsUsed s f = false ∧ frameIsUsed (exec z request s).2 f = true := by
  cases request with
  | allocFrame zoneFlags =>
    obtain ⟨nonzero, rfl⟩ := returned
    obtain ⟨_, _, _, _, free, bits⟩ := (pmmAllocFrame_ok (z := z) zoneFlags s).taken nonzero
    refine ⟨free, ?_⟩
    simp only [exec, bits]
    simp
  | allocContiguous count zoneFlags =>
    obtain ⟨nonzero, i, bound, rfl⟩ := returned
    obtain ⟨_, _, run⟩ := (pmmAllocContiguous_ok (z := z) count zoneFlags s).2 nonzero
    exact ⟨(run i bound).2.1, (run i bound).2.2⟩
  | freeFrame | freeContiguous | markUsed => exact returned.elim

theorem exec_keeps_used (agree : CountersAgree z s) {request : Request}
    (used : frameIsUsed s f = true) (kept : ¬ Releases request f) :
    frameIsUsed (exec z request s).2 f = true := by
  cases request with
  | allocFrame zoneFlags =>
    have ok := pmmAllocFrame_ok (z := z) zoneFlags s
    by_cases zero : (pmmAllocFrame z zoneFlags s).1 = 0#32
    · simp only [exec, ok.full zero, used]
    · obtain ⟨_, _, _, _, _, bits⟩ := ok.taken zero
      simp [exec, bits, used]
  | allocContiguous count zoneFlags =>
    simp only [exec]
    rcases pmmAllocContiguous_cases (z := z) count zoneFlags s with
      nothing | ⟨zone, member, base, run, inside, outcome⟩
    · simp [nothing, used]
    · simp [outcome, frameIsUsed_setUsedRun, used]
  | freeFrame physAddr =>
    simp only [exec]
    unfold pmmFreeFrame
    split
    · exact used
    rename_i aligned
    have different : f ≠ addrToFrame physAddr := by
      intro same
      exact kept ⟨by simpa using aligned, same⟩
    rw [frameIsUsed_releaseFrameChecked, used]
    simp [different]
  | freeContiguous =>
    simp only [exec]
    unfold pmmFreeContiguous
    split
    · exact used
    rename_i aligned
    rw [frameIsUsed_releaseRun_kept, used]
    intro i bound same
    exact kept ⟨by simpa using aligned, i, bound, same⟩
  | markUsed physAddr size =>
    have bits := (pmmMarkUsed_spec agree physAddr size).2 f
    simp only [exec, bits, used, Bool.or_true]

theorem execAll_keeps_used (agree : CountersAgree z s) {requests : List Request}
    (used : frameIsUsed s f = true) (kept : ∀ request ∈ requests, ¬ Releases request f) :
    frameIsUsed (execAll z requests s) f = true := by
  induction requests generalizing s with
  | nil => exact used
  | cons request _ ih =>
    apply ih (exec_countersAgree agree request)
    · exact exec_keeps_used agree used (kept request (by simp))
    · intro later member
      exact kept later (by simp [member])

/-- 16 MB and two frames of RAM: frames 4096 and 4097 are the NORMAL zone. -/
def smallZones : Zones := measureUsableRam 0x1002000#32 0x10000000#32

/-- Frames 0, 1 and 2 and the two of the NORMAL zone are free. -/
def smallState : State where
  bitmap := fun w => if w = 0 then 0xFFFFFFF8#32 else if w = 128 then 0#32 else 0xFFFFFFFF#32
  freeFrames := 5
  dmaFree := 3
  hintDma := 1
  hintNormal := 4096
  doubleFreeCaught := 0

theorem smallState_agrees : CountersAgree smallZones smallState :=
  ⟨by decide +kernel, by decide +kernel⟩

/-- The NORMAL zone is emptied and a DMA frame taken; frame 4097 is freed twice, then taken as a
run of one. -/
def smallRequests : List Request :=
  [.allocFrame 0#32, .allocFrame 0#32, .allocFrame 0#32, .freeFrame 0x1001000#32,
    .freeFrame 0x1001000#32, .allocContiguous 1#32 0#32]

end MainDob.Kernel.Pmm
