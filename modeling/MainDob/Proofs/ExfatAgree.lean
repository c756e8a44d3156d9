/-
Purpose: The exFAT formatters of libdob and of the driver: for the default cluster
  size and a label in capitals both refuse, or both ask for the same sectors,
  counted from the start of the partition, and leave a disk in the same state.
Main exports: shl64_eq, shr64_eq, formatters_agree
-/
import MainDob.Fs.ExfatDriver
import MainDob.Proofs.Block
import MainDob.Proofs.ExfatLayout

namespace MainDob.Proofs.ExfatAgree

open Fs Lib.Bytes
open Fs.ExfatOps (Layout bpsShiftOf chooseClusShift fatOffset logicalBytes)
open Fs.ExfatDriver (shl64 shr64 word64)
open List

/-! ## Shifts in halves -/

variable {x s : Nat}

theorem shr64_eq (few : s < 32) : shr64 x s = x / 2 ^ s := by
  unfold shr64 word32
  split
  · next none' => rw [none', Nat.pow_zero, Nat.div_one]
  rw [if_neg (by omega)]
  refine Nat.eq_of_testBit_eq fun i => ?_
  simp only [Nat.testBit_or, Nat.testBit_shiftLeft, Nat.testBit_shiftRight,
    Nat.testBit_mod_two_pow, Nat.testBit_div_two_pow]
  by_cases low : i < 32
  · by_cases carried : s + i < 32
    · simp [low, carried, show ¬ 32 ≤ i by omega, add_comm i]
    · simp [low, carried, show ¬ 32 ≤ i by omega, show 32 ≤ i + s by omega,
        show i - (32 - s) + 32 = i + s by omega]
  · simp [low, show ¬ s + i < 32 by omega, show 32 ≤ i by omega,
        show s + (i - 32) + 32 = i + s by omega]

theorem shl64_eq (few : s < 32) (less : x < word64) : shl64 x s = x * 2 ^ s % word64 := by
  unfold shl64 word32 word64
  split
  · next none' =>
      rw [none', Nat.pow_zero, mul_one]
      exact (Nat.mod_eq_of_lt less).symm
  rw [if_neg (by omega), ← Nat.shiftLeft_eq]
  refine Nat.eq_of_testBit_eq fun i => ?_
  simp only [Nat.testBit_or, Nat.testBit_shiftLeft, Nat.testBit_shiftRight,
    Nat.testBit_mod_two_pow, Nat.testBit_div_two_pow]
  by_cases low : i < 32
  · simp [low, show ¬ 32 ≤ i by omega, show i < 64 by omega,
      show i - s < 32 by omega]
  by_cases high : i < 64
  · by_cases whole : s ≤ i - 32
    · simp [low, high, whole, show 32 ≤ i by omega, show i - 32 < 32 by omega,
        show s ≤ i by omega, show i - 32 - s + 32 = i - s by omega,
        show ¬ 32 - s + (i - 32) < 32 by omega]
    · simp [low, high, whole, show 32 ≤ i by omega, show s ≤ i by omega,
        show 32 - s + (i - 32) = i - s by omega, show i - s < 32 by omega]
  · simp [low, high, show ¬ i - 32 < 32 by omega,
      show ¬ 32 - s + (i - 32) < 32 by omega]

/-! ## Layouts -/

variable {sectors bps : Nat}

theorem default_fits (small : sectors < word32) (large : 2048 ≤ sectors) (wide : bps = 512 ∨
    bps = 4096) : let spc := 2 ^ (chooseClusShift sectors (bpsShiftOf bps) - bpsShiftOf bps)
    let vol := sectors / 2 ^ (bpsShiftOf bps - 9)
    let entries := (vol - 128) / spc + 2
    128 ≤ vol ∧ vol < word32 ∧ entries * 4 + bps ≤ word32 ∧
      (128 + (entries * 4 + (bps - 1)) / bps + (spc - 1)) / spc * spc ≤ vol := by
  unfold chooseClusShift
  unfold word32 at small ⊢
  rcases wide with rfl | rfl
  · rw [show bpsShiftOf 512 = 9 from rfl]
    by_cases fewer : sectors ≤ 524288
    · simp [fewer]
      omega
    by_cases few : sectors ≤ 67108864
    · simp [fewer, few]
      omega
    · simp [fewer, few]
      omega
  · rw [show bpsShiftOf 4096 = 12 from rfl]
    by_cases fewer : sectors ≤ 524288
    · simp [fewer]
      omega
    by_cases few : sectors ≤ 67108864
    · simp [fewer, few]
      omega
    · simp [fewer, few]
      omega

theorem sub_agree {a b k : Nat} (ordered : b ≤ a) (small : a < word32) (few : k < 32) :
    shr64 ((a + word64 - b) % word64) k % word32 = (a + word32 - b) % word32 / 2 ^ k := by
  have less := Nat.div_le_self (a - b) (2 ^ k)
  unfold word32 at *
  unfold word64
  rw [shr64_eq few, show (a + 2 ^ 64 - b) % 2 ^ 64 = a - b by omega,
    show (a + 2 ^ 32 - b) % 2 ^ 32 = a - b by omega, Nat.mod_eq_of_lt (by omega)]

theorem fat_agree {entries shift : Nat} (fits : entries * 4 + 2 ^ shift ≤ word32)
    (few : shift < 32) : shr64 ((shl64 entries 2 + (2 ^ shift - 1)) % word64) shift % word32 =
      (entries * 4 % word32 + (2 ^ shift - 1)) % word32 / 2 ^ shift := by
  have less := Nat.div_le_self (entries * 4 + (2 ^ shift - 1)) (2 ^ shift)
  have some := Nat.two_pow_pos shift
  unfold word32 at *
  rw [shl64_eq (by decide) (by unfold word64; omega), shr64_eq few]
  unfold word64
  rw [show (entries * 2 ^ 2 % 2 ^ 64 + (2 ^ shift - 1)) % 2 ^ 64 =
      entries * 4 + (2 ^ shift - 1) by omega,
    show (entries * 4 % 2 ^ 32 + (2 ^ shift - 1)) % 2 ^ 32 =
      entries * 4 + (2 ^ shift - 1) by omega, Nat.mod_eq_of_lt (by omega)]

theorem layouts_agree {opts : Option MkfsOptions} (small : sectors < word32)
    (wide : bps = 512 ∨ bps = 4096) (asked : logicalBytes opts = bps)
    (default : opts.elim 0 (·.clusterSize.toNat) = 0) :
    ExfatOps.exfatLayout sectors opts = (ExfatDriver.exfatLayout sectors bps).toOption := by
  have logical : ¬ (bps ≠ 512 ∧ bps ≠ 4096) := by omega
  unfold ExfatOps.exfatLayout ExfatDriver.exfatLayout ExfatOps.clusShift
  rw [asked, default, if_neg logical]
  dsimp only
  rw [if_neg logical, show ExfatDriver.bpsShiftOf bps = bpsShiftOf bps from rfl,
    show ExfatDriver.clusShiftOf sectors (bpsShiftOf bps) =
      chooseClusShift sectors (bpsShiftOf bps) from rfl,
    show ExfatDriver.fatOffset = fatOffset from rfl]
  by_cases large : sectors < 2048
  · rw [if_pos large, if_pos large]
    rfl
  have fits := default_fits small (by omega) wide
  obtain ⟨shift, bytes⟩ : bpsShiftOf bps < 32 ∧ bps = 2 ^ bpsShiftOf bps := by
    rcases wide with rfl | rfl <;> exact ⟨by decide, rfl⟩
  have few : chooseClusShift sectors (bpsShiftOf bps) - bpsShiftOf bps < 32 := by
    unfold chooseClusShift
    dsimp only
    split_ifs <;> omega
  rw [if_neg large, if_neg large, shr64_eq (by omega)]
  simp only [ne_eq, not_true_eq_false, false_and, if_false]
  unfold fatOffset
  generalize chooseClusShift sectors (bpsShiftOf bps) - bpsShiftOf bps = k at *
  generalize sectors / 2 ^ (bpsShiftOf bps - 9) = vol at *
  obtain ⟨low, high, room, heap⟩ := fits
  rw [sub_agree low high few]
  have estimate : (vol + word32 - 128) % word32 / 2 ^ k = (vol - 128) / 2 ^ k := by
    rw [ExfatLayout.sub_wrap low high]
  rw [estimate]
  generalize (vol - 128) / 2 ^ k = est at *
  generalize bpsShiftOf bps = b at *
  subst bytes
  rw [fat_agree room shift]
  have bound : (128 + ((est + 2) * 4 % word32 + (2 ^ b - 1)) % word32 / 2 ^ b +
      (2 ^ k - 1)) % word32 / 2 ^ k * 2 ^ k ≤ vol := by
    refine le_trans ?_ heap
    refine Nat.mul_le_mul_right _ (Nat.div_le_div_right ?_)
    refine le_trans (Nat.mod_le _ _) ?_
    rw [Nat.mod_eq_of_lt (a := (est + 2) * 4) (by omega),
      Nat.mod_eq_of_lt (a := (est + 2) * 4 + (2 ^ b - 1)) (by omega)]
  rw [sub_agree bound high few]
  split_ifs <;> rfl

/-! ## Requests -/

/-- The sectors of a request in their order, each with its distance from the
partition's first. -/
def pieces (start : Nat) (w : Write) : List (Nat × (Nat → UInt8)) :=
  (List.range w.count).map fun k =>
    ((w.lba + k + (word32 - start)) % word32, fun i => w.buf (k * sectorSize + i))

variable {start : Nat}

/-- `chunks` zeroes a run of sectors, `n` at a time. -/
structure ZeroChunks (n : Nat) (chunks : Nat → Nat → Nat → List Write) : Prop where
  some : 0 < n
  empty : ∀ lba count, chunks 0 lba count = []
  round : ∀ fuel lba count, chunks (fuel + 1) lba count = if count > 0 then
      ⟨lba, if count > n then n else count, fun _ => 0⟩ :: chunks fuel
        ((lba + if count > n then n else count) % word32) (count - if count > n then n else count)
    else []

theorem zeroChunks_library : ZeroChunks zeroChunkSectors zeroRegionLoop :=
  ⟨by decide, fun _ _ => rfl, fun _ _ _ => rfl⟩

theorem zeroChunks_driver : ZeroChunks 8 ExfatDriver.wrZerosLoop :=
  ⟨by decide, fun _ _ => rfl, fun _ _ _ => rfl⟩

theorem pieces_zeros {n : Nat} {chunks : Nat → Nat → Nat → List Write}
    (zero : ZeroChunks n chunks) :
    ∀ {fuel lba count}, count ≤ fuel → (chunks fuel lba count).flatMap
      (pieces start) = (List.range count).map fun k =>
        ((lba + k + (word32 - start)) % word32, fun _ => 0)
  | 0, lba, count, enough => by
    rw [zero.empty, Nat.le_zero.mp enough]
    rfl
  | fuel + 1, lba, count, enough => by
    have some := zero.some
    rw [zero.round]
    by_cases more : count > 0
    · obtain ⟨m, isM, part⟩ : ∃ m, (if count > n then n else count) = m ∧
          1 ≤ m ∧ m ≤ count := ⟨_, rfl, by split <;> omega⟩
      rw [if_pos more, isM, flatMap_cons, pieces_zeros zero (by omega)]
      conv_rhs => rw [show count = m + (count - m) by omega, range_add, map_append, map_map]
      refine congrArg _ (map_congr_left fun k _ => Prod.ext ?_ rfl)
      dsimp only [Function.comp]
      unfold word32
      omega
    · rw [if_neg more, show count = 0 by omega]
      rfl

variable (layout : Layout)

section

variable (less : start < word32)
include less

theorem zeros_agree (at' count : Nat) : (zeroRegion ((start + at') % word32) count).flatMap
    (pieces start) = (ExfatDriver.wrZeros (at' % word32) count).flatMap (pieces 0) := by
  unfold zeroRegion ExfatDriver.wrZeros
  rw [pieces_zeros zeroChunks_library (le_refl _), pieces_zeros zeroChunks_driver (le_refl _)]
  refine map_congr_left fun k _ => Prod.ext ?_ rfl
  unfold word32 at *
  omega

theorem lsec_agree (lsec : Nat) (sec : Nat → UInt8) : pieces start
    (ExfatOps.writeLsec layout start lsec sec) = pieces 0 (ExfatDriver.wrLsec layout lsec sec) := by
  unfold pieces ExfatOps.writeLsec ExfatDriver.wrLsec
  refine map_congr_left fun k _ => Prod.ext ?_ rfl
  dsimp only
  unfold word32 at *
  omega

theorem region_agree (lsec count : Nat) (sec : Nat → UInt8) :
    (ExfatOps.writeRegion layout start lsec count sec).flatMap (pieces start) =
      (ExfatDriver.wrRegion layout lsec count sec).flatMap (pieces 0) := by
  unfold ExfatOps.writeRegion ExfatDriver.wrRegion
  rw [flatMap_cons, flatMap_cons, lsec_agree layout less]
  refine congrArg _ ?_
  split
  · exact zeros_agree less ((lsec + 1) * layout.s512) _
  · rw [flatMap_nil, flatMap_nil]

theorem boot_agree (lsec : Nat) (sec : Nat → UInt8) :
    (ExfatOps.writeBoot layout start lsec sec).flatMap (pieces start) =
      (ExfatDriver.wrBoot layout lsec sec).flatMap (pieces 0) := by
  unfold ExfatOps.writeBoot ExfatDriver.wrBoot
  simp only [flatMap_cons, flatMap_nil, lsec_agree layout less]

end

/-! ## Sectors -/

theorem rotate_eq (sum : Nat) :
    (if sum &&& 1 ≠ 0 then 0x80000000 else 0) + sum >>> 1 = sum % 2 * 0x80000000 + sum / 2 := by
  rw [Nat.and_one_is_mod, Nat.shiftRight_one]
  split <;> omega

theorem bootChecksumAdd_eq (sum : Nat) (sec : Nat → UInt8) (len : Nat) (first : Bool) :
    ExfatDriver.bootChecksumAdd sum sec len first = ExfatOps.bootChecksumAdd sum sec len first := by
  unfold ExfatDriver.bootChecksumAdd ExfatOps.bootChecksumAdd
  congr 1
  funext sum i
  rw [rotate_eq]
  simp only [Bool.and_eq_true, Bool.or_eq_true, beq_iff_eq, or_assoc]

theorem upcaseChecksum_eq : ExfatDriver.upcaseChecksum ExfatDriver.up 60 =
      ExfatOps.upcaseChecksum ExfatOps.upcaseTable := by
  decide +kernel

theorem up_eq : ExfatDriver.up = putBytes 0 ExfatOps.upcaseTable zeroSector := by
  have letters : ∀ (l : List Nat) (sec : Nat → UInt8) (i : Nat), (∀ k ∈ l, 6 + k * 2 ≤ i) →
      l.foldl (fun up k => putBytes (4 + k * 2) [UInt8.ofNat (0x41 + k), 0x00] up) sec i =
        sec i := by
    intro l
    induction l with
    | nil => exact fun _ _ _ => rfl
    | cons k l ih =>
      intro sec i above
      rw [foldl_cons, ih _ _ fun k member => above k (mem_cons_of_mem _ member),
        putBytes_apart (.inr (by have := above k mem_cons_self; simp; omega))]
  have table : ∀ i < 60, ExfatDriver.up i = putBytes 0 ExfatOps.upcaseTable zeroSector i := by
    decide +kernel
  funext i
  by_cases inside : i < 60
  · exact table i inside
  · have length : ExfatOps.upcaseTable.length = 60 := rfl
    rw [putBytes_apart (.inr (by omega))]
    unfold ExfatDriver.up
    rw [putBytes_apart (.inr (by simp; omega)), letters _ _ _ fun k member => by
        have := mem_range.mp member
        omega,
      putBytes_apart (.inr (by simp; omega))]

theorem fatSector_eq (layout : Layout) :
    ExfatDriver.fatSector layout = ExfatOps.fatSector layout := by
  have marks : putBytes 0 [0xF8, 0xFF, 0xFF, 0xFF, 0xFF, 0xFF, 0xFF, 0xFF] (zeroSector : Sector) =
      putBytes 4 (leBytes 4 0xFFFFFFFF) (putBytes 0 (leBytes 4 0xFFFFFFF8) zeroSector) := by
    funext i
    by_cases inside : i < 8
    · revert i
      decide +kernel
    · rw [putBytes_apart (.inr (by simp; omega)), putBytes_apart (.inr (by simp; omega)),
        putBytes_apart (.inr (by simp; omega))]
  unfold ExfatDriver.fatSector ExfatOps.fatSector
  rw [marks]
  rfl

theorem bitmapSector_eq (layout : Layout) :
    ExfatDriver.bitmapSector layout = ExfatOps.setBits layout.usedClusters := by
  unfold ExfatDriver.bitmapSector ExfatOps.setBits
  congr 1
  funext sec i
  rw [Nat.shiftRight_eq_div_pow, Nat.one_shiftLeft, show i &&& 7 = i % 8 from
    Nat.and_two_pow_sub_one_eq_mod i 3]

theorem putBytes_wide {n place : Nat} {sec : Nat → UInt8} (small : n < word32)
    (blank : ∀ i, 4 ≤ i → i < 8 → sec (place + i) = 0) :
    putBytes place (leBytes 8 n) sec = putBytes place (leBytes 4 n) sec := by
  have bytes : leBytes 8 n = leBytes 4 n ++ List.replicate 4 0 := by
    have none' : n / 256 / 256 / 256 / 256 = 0 := by
      unfold word32 at small
      omega
    simp [leBytes, none']
  funext i
  unfold putBytes
  split
  · next from' =>
      rw [bytes, List.getElem?_append]
      split
      · rfl
      next behind =>
        rw [length_leBytes] at behind ⊢
        rw [List.getElem?_replicate, List.getElem?_eq_none (by simp; omega)]
        split
        · have zero := blank (i - place) (by omega) (by omega)
          rw [show place + (i - place) = i by omega] at zero
          exact zero.symm
        · rfl
  · rfl

theorem bootSector_agree (small : layout.volLsec < word32) :
    ExfatDriver.bootSector layout = ExfatOps.bootSector layout := by
  unfold ExfatDriver.bootSector ExfatOps.bootSector
  rw [putBytes_wide small]
  · rfl
  intro i low high
  rw [putBytes_apart (by simp; omega), putBytes_apart (by simp; omega)]
  rfl

theorem checksumSector_agree (small : layout.volLsec < word32) :
    ExfatDriver.checksumSector layout = ExfatOps.checksumSector layout := by
  have added : ExfatDriver.bootChecksumAdd = ExfatOps.bootChecksumAdd := by
    funext sum sec len first
    exact bootChecksumAdd_eq sum sec len first
  unfold ExfatDriver.checksumSector ExfatOps.checksumSector
  rw [bootSector_agree layout small, added]
  rfl

/-- The bytes of a C string. -/
def CString (s : Nat → UInt8) : Nat → List UInt8 → Prop
  | p, [] => s p = 0
  | p, c :: rest => s p = c ∧ CString s (p + 1) rest

/-- A letter or sign of ASCII that is no small letter. -/
def Capital (c : UInt8) : Prop := c ≠ 0 ∧ c < 0x80 ∧ ¬ (97 ≤ c ∧ c ≤ 122)

theorem utf8ToUtf16_ascii {s : Nat → UInt8} {label : List UInt8} :
    ∀ {room p}, (∀ c ∈ label, Capital c) → label.length ≤ room →
    CString s p label → ExfatDriver.utf8ToUtf16 s room p = some (label.map UInt8.toUInt16) := by
  induction label with
  | nil =>
    intro room p _ _ ends
    cases room <;> exact if_pos ends
  | cons c _ ih =>
    rintro (_ | _) _ capital short ⟨here, text⟩
    · cases short
    obtain ⟨some, ascii, _⟩ := capital c mem_cons_self
    unfold ExfatDriver.utf8ToUtf16
    rw [here, if_neg some, if_pos ascii, ih (fun d member => capital d (mem_cons_of_mem _ member))
      (Nat.le_of_succ_le_succ short) text]
    rfl

/-- The label of libdob's options and the memory the driver's label points to. -/
def SameLabel : Option (List UInt8) → Option (Nat → UInt8) → Prop
  | none, none => True
  | some label, some text => CString text 0 label ∧ label.length ≤ 11 ∧
      ∀ c ∈ label, Capital c
  | _, _ => False

section Label

variable {label : Option (List UInt8)} {text : Option (Nat → UInt8)}

theorem labelUnits_eq (same : SameLabel label text) :
    ((label.getD []).take 11).map Fat32Ops.upper = label.getD [] ∧
      ExfatDriver.labelUnits text = (label.getD []).map UInt8.toUInt16 ∧
      (label.getD []).length ≤ 11 := by
  match label, text, same with
  | none, none, _ => exact ⟨rfl, rfl, Nat.zero_le _⟩
  | some label, some text, ⟨held, short, capital⟩ =>
    dsimp only [Option.getD_some]
    refine ⟨?_, ?_, short⟩
    · rw [take_of_length_le short]
      refine (map_congr_left fun c member => ?_).trans (map_id _)
      exact if_neg (capital c member).2.2
    unfold ExfatDriver.labelUnits
    dsimp only
    cases label with
    | nil => exact if_pos held
    | cons c =>
      have here : text 0 = c := held.1
      rw [here, if_neg (capital c mem_cons_self).1, utf8ToUtf16_ascii capital short held]
      rfl

theorem rootSector_agree (same : SameLabel label text) (small : layout.bitmapBytes < word32) :
    ExfatDriver.rootSector layout text = ExfatOps.rootSector layout label := by
  obtain ⟨chars, units, short⟩ := labelUnits_eq same
  have bytes : ((label.getD []).map UInt8.toUInt16).flatMap (fun unit => leBytes 2 unit.toNat) =
      (label.getD []).flatMap fun c => [c, 0x00] := by
    rw [flatMap_map]
    congr 1
    funext c
    have high : c.toNat / 256 = 0 := Nat.div_eq_of_lt c.toNat_lt
    simp [leBytes, high]
  have length : ((label.getD []).flatMap fun c => [c, (0x00 : UInt8)]).length ≤ 22 := by
    simp [length_flatMap, map_const']
    omega
  unfold ExfatDriver.rootSector ExfatOps.rootSector
  dsimp only
  rw [chars, units, bytes, length_map, upcaseChecksum_eq, putBytes_wide small]
  intro i low high
  rw [putBytes_apart (.inr (by simp)), putBytes_apart (.inr (by simp; omega)),
    putBytes_apart (.inr (by simp; omega)), putBytes_apart (.inr (by omega)),
    putBytes_apart (.inr (by simp; omega))]
  rfl

end Label

/-- For one layout both formatters ask for the same bytes in the same sectors. -/
theorem writes_agree (less : start < word32) {label : Option (List UInt8)}
    {text : Option (Nat → UInt8)} (same : SameLabel label text) (volume : layout.volLsec < word32)
    (bitmap : layout.bitmapBytes < word32) : (ExfatOps.exfatWrites layout start label).flatMap
    (pieces start) = (ExfatDriver.exfatWrites layout text).flatMap (pieces 0) := by
  unfold ExfatOps.exfatWrites ExfatDriver.exfatWrites
  rw [rootSector_agree layout same bitmap, checksumSector_agree layout volume,
    bootSector_agree layout volume, fatSector_eq, bitmapSector_eq, up_eq,
    show ExfatDriver.extendedSector layout = ExfatOps.extendedSector layout from rfl,
    show ExfatDriver.fatOffset = fatOffset from rfl]
  simp only [flatMap_append, flatMap_cons, flatMap_nil,
    boot_agree layout less, region_agree layout less]

theorem refusal_neg {code : Int}
    (refused : ExfatDriver.exfatLayout sectors bps = .error code) : code < 0 := by
  unfold ExfatDriver.exfatLayout at refused
  dsimp only at refused
  split_ifs at refused <;> cases refused <;> decide

/-! ## The disk -/

/-- Sectors are replaced in their order, each by its distance from the partition's
first. -/
def stamp (start : Nat) (ps : List (Nat × (Nat → UInt8))) (disk : Nat → Sector) : Nat → Sector :=
  ps.foldl (fun disk p => Function.update disk ((start + p.1) % word32) p.2) disk

/-- A request that ends where LBAs do replaces its sectors one by one. -/
theorem stamp_pieces (less : start < word32) {w : Write} (low : w.lba + w.count ≤ word32)
    (disk : Nat → Sector) : stamp start (pieces start w) disk = w.apply disk := by
  have shown : ∀ n ≤ w.count, stamp start ((List.range n).map fun k =>
      ((w.lba + k + (word32 - start)) % word32, fun i => w.buf (k * sectorSize + i))) disk =
        fun sector i => if w.lba ≤ sector ∧ sector < w.lba + n then
          w.buf ((sector - w.lba) * sectorSize + i) else disk sector i := by
    intro n
    induction n with
    | zero =>
      intro _
      funext sector i
      rw [if_neg (by omega)]
      rfl
    | succ n ih =>
      intro more
      have place : (start + (w.lba + n + (word32 - start)) % word32) % word32 = w.lba + n := by
        unfold word32 at *
        omega
      rw [List.range_succ, map_append, stamp, foldl_append]
      change Function.update (stamp start _ disk) _ _ = _
      rw [ih (by omega)]
      funext sector i
      rw [place]
      by_cases here : sector = w.lba + n
      · subst here
        rw [Function.update_self, if_pos (by omega), Nat.add_sub_cancel_left]
      · rw [Function.update_of_ne here]
        by_cases before : w.lba ≤ sector ∧ sector < w.lba + n
        · rw [if_pos before, if_pos (by omega)]
        · rw [if_neg before, if_neg (by omega)]
  exact shown w.count (le_refl _)

theorem overlay_stamp (less : start < word32) {ws : List Write}
    (low : ∀ w ∈ ws, w.lba + w.count ≤ word32) (disk : Nat → Sector) :
    Block.overlay ws disk = stamp start (ws.flatMap (pieces start)) disk := by
  induction ws generalizing disk with
  | nil => rfl
  | cons w rest ih =>
    rw [Block.overlay_cons, ih fun w member => low w (mem_cons_of_mem _ member), flatMap_cons,
      stamp, stamp, foldl_append]
    change _ = stamp start _ (stamp start (pieces start w) disk)
    rw [stamp_pieces less (low w mem_cons_self)]
    rfl

/-- A request for sectors, the first of which has a 32-bit number. -/
def Asks (w : Write) : Prop := 0 < w.count ∧ w.lba < word32

theorem writeAll_ok (ws : List Write) (d : Device) :
    (writeAll ws d).1 = true ↔ ∀ w ∈ ws, w.count ≠ 0 ∧ w.lba + w.count ≤ d.totalSectors := by
  induction ws generalizing d with
  | nil => simp [writeAll]
  | cons w rest ih =>
    unfold writeAll blockWrite
    rw [forall_mem_cons]
    by_cases none' : w.count = 0
    · simp [none']
    by_cases past : w.lba + w.count > d.totalSectors
    · simp only [if_neg none', if_pos past]
      exact ⟨fun refused => Bool.noConfusion refused, fun fits => absurd fits.1.2 (by omega)⟩
    · simp only [if_neg none', if_neg past, if_true]
      rw [ih]
      exact ⟨fun others => ⟨⟨none', by omega⟩, others⟩, And.right⟩

/-- On a disk of fewer than 2^32 sectors, a request is taken exactly where each of
its sectors is there: one that runs past the last number asks for a sector that is
not. -/
theorem fits_iff (less : start < word32) {w : Write} (asks : Asks w) {total : Nat}
    (within : total < word32) : (w.count ≠ 0 ∧ w.lba + w.count ≤ total) ↔
      ∀ p ∈ pieces start w, (start + p.1) % word32 < total := by
  obtain ⟨some, first⟩ := asks
  have place : ∀ k, w.lba + k < word32 →
      (start + (w.lba + k + (word32 - start)) % word32) % word32 = w.lba + k := by
    intro k below
    unfold word32 at *
    omega
  unfold pieces
  rw [forall_mem_map]
  constructor
  · rintro ⟨_, fits⟩ k member
    have below := mem_range.mp member
    rw [place k (by omega)]
    omega
  · intro there
    have reached : ∀ k < w.count, w.lba + k < total := by
      intro k
      induction k with
      | zero =>
        intro inside
        have here := there 0 (mem_range.mpr inside)
        rwa [place 0 (by omega)] at here
      | succ k ih =>
        intro inside
        have here := there (k + 1) (mem_range.mpr inside)
        rwa [place (k + 1) (by omega)] at here
    have last := reached (w.count - 1) (by omega)
    omega

/-- Two series of requests for the same sectors come to the same end on a disk,
however they are divided: both are taken to the last and leave it alike, or both
fail. -/
theorem alike (less : start < word32) {ws vs : List Write} (asks : ∀ w ∈ ws, Asks w)
    (asks' : ∀ w ∈ vs, Asks w) (same : ws.flatMap (pieces start) = vs.flatMap (pieces start))
    {d : Device} (within : d.totalSectors < word32) : (writeAll ws d).1 = (writeAll vs d).1 ∧
      ((writeAll ws d).1 = true → (writeAll ws d).2.disk = (writeAll vs d).2.disk) := by
  have whole : ∀ us : List Write, (∀ w ∈ us, Asks w) → ((writeAll us d).1 = true ↔
      ∀ p ∈ us.flatMap (pieces start), (start + p.1) % word32 < d.totalSectors) := by
    intro us asked
    rw [writeAll_ok]
    simp only [mem_flatMap, forall_exists_index, and_imp]
    exact ⟨fun fits p w member => (fits_iff less (asked w member) within).mp (fits w member) p,
      fun there w member => (fits_iff less (asked w member) within).mpr fun p =>
        there p w member⟩
  have disk : ∀ us : List Write, (writeAll us d).1 = true →
      (writeAll us d).2.disk = stamp start (us.flatMap (pieces start)) d.disk := by
    intro us done
    have fits := (writeAll_ok us d).mp done
    rw [Block.writeAll_success (Prod.ext done rfl : writeAll us d = (true, (writeAll us d).2))]
    exact overlay_stamp less (fun w member => by have := fits w member; omega) d.disk
  have verdict : (writeAll ws d).1 = (writeAll vs d).1 := by
    rw [Bool.eq_iff_iff, whole ws asks, whole vs asks', same]
  refine ⟨verdict, fun done => ?_⟩
  rw [disk ws done, disk vs (verdict ▸ done), same]

/-! ### The requests of both -/

section

variable {w : Write}

theorem asks_zeros {n : Nat} {chunks : Nat → Nat → Nat → List Write} (zero : ZeroChunks n chunks)
    {fuel lba count : Nat} (low : lba < word32) (member : w ∈ chunks fuel lba count) : Asks w := by
  induction fuel generalizing lba count with
  | zero =>
    rw [zero.empty] at member
    cases member
  | succ fuel ih =>
    have some := zero.some
    rw [zero.round] at member
    split at member
    · rcases mem_cons.mp member with rfl | later
      · exact ⟨by dsimp only; split <;> omega, low⟩
      · exact ih (Nat.mod_lt _ (by decide)) later
    · cases member

variable {layout : Layout}

theorem asks_region {lsec count : Nat} {sec : Nat → UInt8}
    (member : w ∈ ExfatOps.writeRegion layout start lsec count sec) : Asks w := by
  rcases mem_cons.mp member with rfl | zeros
  · exact ⟨Nat.two_pow_pos _, Nat.mod_lt _ (by decide)⟩
  · split at zeros
    · exact asks_zeros zeroChunks_library (Nat.mod_lt _ (by decide)) zeros
    · cases zeros

theorem asks_boot {lsec : Nat} {sec : Nat → UInt8}
    (member : w ∈ ExfatOps.writeBoot layout start lsec sec) : Asks w := by
  simp only [ExfatOps.writeBoot, mem_cons, not_mem_nil, or_false] at member
  rcases member with rfl | rfl <;> exact ⟨Nat.two_pow_pos _, Nat.mod_lt _ (by decide)⟩

theorem asks_library {label : Option (List UInt8)}
    (member : w ∈ ExfatOps.exfatWrites layout start label) : Asks w := by
  simp only [ExfatOps.exfatWrites, mem_append, mem_flatMap] at member
  rcases member with (((boot | ⟨_, _, boot⟩) | ⟨_, _, boot⟩) | boot) | region | region | region |
    region
  all_goals first | exact asks_boot boot | exact asks_region region

theorem counts_region {lsec count : Nat} {sec : Nat → UInt8}
    (member : w ∈ ExfatDriver.wrRegion layout lsec count sec) : 0 < w.count := by
  rcases mem_cons.mp member with rfl | zeros
  · exact Nat.two_pow_pos _
  · split at zeros
    · exact (asks_zeros zeroChunks_driver (Nat.mod_lt _ (by decide)) zeros).1
    · cases zeros

theorem counts_boot {lsec : Nat} {sec : Nat → UInt8}
    (member : w ∈ ExfatDriver.wrBoot layout lsec sec) : 0 < w.count := by
  simp only [ExfatDriver.wrBoot, mem_cons, not_mem_nil, or_false] at member
  rcases member with rfl | rfl <;> exact Nat.two_pow_pos _

theorem counts_driver {text : Option (Nat → UInt8)}
    (member : w ∈ ExfatDriver.exfatWrites layout text) : 0 < w.count := by
  simp only [ExfatDriver.exfatWrites, mem_append, mem_flatMap] at member
  rcases member with (((boot | ⟨_, _, boot⟩) | ⟨_, _, boot⟩) | boot) | region | region | region |
    region
  all_goals first | exact counts_boot boot | exact counts_region region

end

/-- A request to the driver's callback as the disk gets it. -/
def moved (start : Nat) (w : Write) : Write := { w with lba := (start + w.lba) % word32 }

theorem pieces_moved (less : start < word32) (ws : List Write) :
    (ws.map (moved start)).flatMap (pieces start) = ws.flatMap (pieces 0) := by
  have each : ∀ w, pieces start (moved start w) = pieces 0 w := by
    intro w
    refine map_congr_left fun k _ => Prod.ext ?_ rfl
    unfold moved word32 at *
    dsimp only
    omega
  rw [flatMap_map, show (fun w => pieces start (moved start w)) = pieces 0 from funext each]

theorem wrAll_moved (start : Nat) (ws : List Write) (d : Device) : ExfatDriver.wrAll
    (ExfatDriver.exfatWr start) ws d = (if (writeAll (ws.map (moved start)) d).1 then 0 else -2,
        (writeAll (ws.map (moved start)) d).2) := by
  induction ws generalizing d with
  | nil => rfl
  | cons w rest ih =>
    unfold ExfatDriver.wrAll ExfatDriver.exfatWr
    rw [map_cons, writeAll]
    cases taken : blockWrite d (moved start w) with
    | mk ok after =>
      rw [show blockWrite d { w with lba := (start + w.lba) % word32 } = (ok, after) from taken]
      cases ok with
      | true => exact ih after
      | false => rfl

/-- Both formatters refuse, or both ask for the same bytes in the same sectors,
counted from the start of the partition, and on a disk of fewer than 2^32 sectors
both fail or both leave the same bytes in every sector. -/
def Agree (start sectors bytesPerSector : UInt32) (opts : Option MkfsOptions)
    (text : Option (Nat → UInt8)) : Prop :=
  ((∀ d, ExfatOps.exfatMkfs d start sectors opts = (false, d)) ∧
    ∃ code < 0, ∀ {σ : Type} (wr : σ → Write → Int × σ) (ctx : σ),
      ExfatDriver.exfatMkfs wr ctx sectors.toUInt64 bytesPerSector text = (code, ctx)) ∨
  (∃ ws ws', (∀ d, ExfatOps.exfatMkfs d start sectors opts = writeAll ws d) ∧
    (∀ {σ : Type} (wr : σ → Write → Int × σ) (ctx : σ),
      ExfatDriver.exfatMkfs wr ctx sectors.toUInt64 bytesPerSector text =
        ExfatDriver.wrAll wr ws' ctx) ∧ ws.flatMap (pieces start.toNat) = ws'.flatMap (pieces 0)) ∧
  ∀ d : Device, d.totalSectors < word32 → ((ExfatOps.exfatMkfs d start sectors opts).1 = true ↔
      (ExfatDriver.exfatMkfs (ExfatDriver.exfatWr start.toNat) d sectors.toUInt64
        bytesPerSector text).1 = 0) ∧ ((ExfatOps.exfatMkfs d start sectors opts).1 = true →
      (ExfatOps.exfatMkfs d start sectors opts).2.disk =
        (ExfatDriver.exfatMkfs (ExfatDriver.exfatWr start.toNat) d sectors.toUInt64
          bytesPerSector text).2.disk)

/-- For the default cluster size and a label in capitals the formatters agree. -/
theorem formatters_agree {start sectors bytesPerSector : UInt32} {opts : Option MkfsOptions}
    {text : Option (Nat → UInt8)} (wide : bytesPerSector = 512 ∨ bytesPerSector = 4096)
    (asked : logicalBytes opts = bytesPerSector.toNat)
    (default : opts.elim 0 (·.clusterSize.toNat) = 0) (same : SameLabel (opts.bind (·.label)) text)
    : Agree start sectors bytesPerSector opts text := by
  have small : sectors.toNat < word32 := sectors.toNat_lt
  have less : start.toNat < word32 := start.toNat_lt
  have layouts := layouts_agree small (by
    rcases wide with rfl | rfl
    · exact .inl rfl
    · exact .inr rfl) asked default
  have whole : sectors.toUInt64.toNat = sectors.toNat := by simp
  cases chosen : ExfatDriver.exfatLayout sectors.toNat bytesPerSector.toNat with
  | error code =>
    rw [chosen] at layouts
    refine .inl ⟨fun d => ?_, code, ?_, fun wr ctx => ?_⟩
    · unfold ExfatOps.exfatMkfs
      rw [layouts]
      rfl
    · exact refusal_neg chosen
    · unfold ExfatDriver.exfatMkfs
      rw [whole, chosen]
  | ok layout =>
    rw [chosen] at layouts
    have library : ∀ d, ExfatOps.exfatMkfs d start sectors opts =
        writeAll (ExfatOps.exfatWrites layout start.toNat (opts.bind (·.label))) d := by
      intro d
      unfold ExfatOps.exfatMkfs
      rw [layouts]
      rfl
    have driver : ∀ {σ : Type} (wr : σ → Write → Int × σ) (ctx : σ),
        ExfatDriver.exfatMkfs wr ctx sectors.toUInt64 bytesPerSector text =
          ExfatDriver.wrAll wr (ExfatDriver.exfatWrites layout text) ctx := by
      intro σ wr ctx
      unfold ExfatDriver.exfatMkfs
      rw [whole, chosen]
    obtain ⟨accepted, -⟩ := ExfatLayout.exfatLayout_accepted layouts
    have volume := (ExfatLayout.volume_bounds small accepted).2.1
    have bitmap : layout.bitmapBytes < word32 := by
      rw [accepted.bitmap]
      unfold word32
      omega
    have requests := writes_agree layout less same volume bitmap
    refine .inr ⟨⟨_, _, library, driver, requests⟩, fun d within => ?_⟩
    obtain ⟨verdict, disk⟩ := alike less (fun w member => asks_library member) (fun w member => by
        obtain ⟨v, asked, rfl⟩ := mem_map.mp member
        have some : 0 < v.count := counts_driver asked
        exact ⟨some, Nat.mod_lt _ (by decide)⟩)
      (requests.trans (pieces_moved less _).symm) within
    rw [library, driver, wrAll_moved]
    refine ⟨?_, disk⟩
    rw [verdict]
    dsimp only
    split
    · next taken => simp [taken]
    · next failed => simp [failed]

/-- The options of a volume with the label `A`. -/
def labelledOptions : MkfsOptions := ⟨some [0x41], 0, 512, 0⟩

def blank : Device := ⟨fun _ => zeroSector, 8192, []⟩

/-- A volume of 2 MiB with a label is formatted alike; on a blank disk both come to
the end and leave the same jump in its first sector. -/
theorem formatters_agree_labelled :
    (ExfatOps.exfatMkfs blank 2048 4096 (some labelledOptions)).1 = true ∧
      (ExfatOps.exfatMkfs blank 2048 4096 (some labelledOptions)).2.disk 2048 0 = 0xEB ∧
      Agree 2048 4096 512 (some labelledOptions) (some fun i => if i = 0 then 0x41 else 0) := by
  obtain ⟨taken, jump⟩ : (ExfatOps.exfatMkfs blank 2048 4096 (some labelledOptions)).1 = true ∧
      (ExfatOps.exfatMkfs blank 2048 4096 (some labelledOptions)).2.disk 2048 0 = 0xEB := by
    decide +kernel
  exact ⟨taken, jump,
    formatters_agree (.inl rfl) rfl rfl ⟨⟨rfl, rfl⟩, by decide, by simp [Capital]⟩⟩

end MainDob.Proofs.ExfatAgree
