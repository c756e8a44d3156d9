/-
Purpose: What a sequence of writes that succeeds has done to the disk, and what
  `zero_region` asks for.
Main exports: overlay, overlay_append, overlay_apart
-/
import MainDob.Fs.Block

namespace MainDob.Proofs.Block

open Fs
open List

/-! ## Sequences of writes -/

/-- The disk after writes. -/
def overlay (ws : List Write) (disk : Nat → Sector) : Nat → Sector :=
  ws.foldl (fun disk w => w.apply disk) disk

@[simp] theorem overlay_nil (disk : Nat → Sector) : overlay [] disk = disk := rfl

theorem overlay_cons (w : Write) (rest : List Write) (disk : Nat → Sector) :
    overlay (w :: rest) disk = overlay rest (w.apply disk) := rfl

theorem overlay_append (ws rest : List Write) (disk : Nat → Sector) :
    overlay (ws ++ rest) disk = overlay rest (overlay ws disk) :=
  foldl_append

/-- A write does not name the sector. -/
def Write.Apart (w : Write) (sector : Nat) : Prop :=
  sector < w.lba ∨ w.lba + w.count ≤ sector

variable {w : Write} {sector : Nat}

theorem apply_apart (apart : Write.Apart w sector) (disk : Nat → Sector) :
    w.apply disk sector = disk sector := by
  funext i
  unfold Write.Apart at apart
  exact if_neg (by omega)

theorem apply_read (low : w.lba ≤ sector) (high : sector < w.lba + w.count) (disk : Nat → Sector)
    (i : Nat) : w.apply disk sector i = w.buf ((sector - w.lba) * sectorSize + i) :=
  if_pos ⟨low, high⟩

variable {ws : List Write}

theorem overlay_apart (apart : ∀ w ∈ ws, Write.Apart w sector) (disk : Nat → Sector) :
    overlay ws disk sector = disk sector := by
  induction ws generalizing disk with
  | nil => rfl
  | cons w _ ih =>
    rw [overlay_cons, ih fun w member =>
      apart w (mem_cons_of_mem _ member),
      apply_apart (apart w mem_cons_self)]

theorem overlay_read {later : List Write} (low : w.lba ≤ sector) (high : sector < w.lba + w.count)
    (apart : ∀ w ∈ later, Write.Apart w sector) (disk : Nat → Sector) (i : Nat) :

    overlay (ws ++ w :: later) disk sector i = w.buf ((sector - w.lba) * sectorSize + i) := by
  rw [overlay_append, overlay_cons, overlay_apart apart, apply_read low high]

/-- The place of a write in the log of the disk. -/
def place (w : Write) : Nat × Nat := (w.lba, w.count)

theorem writeAll_success {d d' : Device} (done : writeAll ws d = (true, d')) :
    d' = { d with disk := overlay ws d.disk, written := d.written ++ ws.map place } := by
  induction ws generalizing d with
  | nil =>
    cases done
    simp
  | cons _ _ ih =>
    unfold writeAll blockWrite at done
    split at done
    next failed =>
        split at failed
        · cases failed
          cases done
        split at failed
        · cases failed
          cases done
        · cases failed
          rw [ih done]
          simp [overlay_cons, place]

/-- Every sector the requests of a call have written lies in the partition. -/
def Inside (d d' : Device) (start sectors : Nat) : Prop :=
  ∀ written ∈ d'.written.drop d.written.length,
    start ≤ written.1 ∧ written.1 + written.2 ≤ start + sectors

theorem inside_iff {d d' : Device} (done : writeAll ws d = (true, d')) (start sectors : Nat) :
    Inside d d' start sectors ↔ ∀ w ∈ ws, start ≤ w.lba ∧ w.lba + w.count ≤ start + sectors := by
  unfold Inside
  rw [writeAll_success done]
  simp [place]

/-! ## `zero_region` -/

/-- The `k`-th chunk of a region. -/
def chunk (startLba count k : Nat) : Write :=
  ⟨(startLba + k * zeroChunkSectors) % word32,
    min zeroChunkSectors (count - k * zeroChunkSectors), fun _ => 0⟩

variable {startLba count : Nat}

theorem mem_zeroRegionLoop {fuel : Nat} (enough : count ≤ fuel) (reduced : startLba < word32) :
    w ∈ zeroRegionLoop fuel startLba count ↔
      ∃ k, k * zeroChunkSectors < count ∧ w = chunk startLba count k := by
  induction fuel generalizing startLba count with
  | zero =>
    have empty : count = 0 := by omega
    subst empty
    simp [zeroRegionLoop]
  | succ _ ih =>
    unfold zeroRegionLoop
    by_cases more : count > 0
    · rw [if_pos more]
      have length : (if count > zeroChunkSectors then zeroChunkSectors
          else count) = min zeroChunkSectors count := by
        split <;> omega
      have first : (⟨startLba, min zeroChunkSectors count, fun _ => 0⟩ : Write) =
          chunk startLba count 0 := by
        unfold chunk
        rw [Nat.zero_mul, Nat.add_zero, Nat.sub_zero, Nat.mod_eq_of_lt reduced]
      -- the chunks of the rest, each one further
      have next : ∀ k, k * zeroChunkSectors < count - min zeroChunkSectors count →
          chunk ((startLba + min zeroChunkSectors count) % word32)
              (count - min zeroChunkSectors count) k = chunk startLba count (k + 1) := by
        intro k below
        have whole : min zeroChunkSectors count = zeroChunkSectors := by omega
        unfold chunk
        rw [whole, Nat.mod_add_mod, Nat.succ_mul, add_assoc,
          add_comm zeroChunkSectors, Nat.sub_sub, add_comm zeroChunkSectors]
      simp only [length, first, mem_cons]
      rw [ih (by unfold zeroChunkSectors; omega) (Nat.mod_lt _ (by decide))]
      constructor
      · rintro (rfl | ⟨k, below, rfl⟩)
        · exact ⟨0, by omega, rfl⟩
        · exact ⟨k + 1, by rw [Nat.succ_mul]; omega, next k below⟩
      rintro ⟨k, below, rfl⟩
      cases k with
      | zero => exact .inl rfl
      | succ k =>
        rw [Nat.succ_mul] at below
        have rest : k * zeroChunkSectors < count - min zeroChunkSectors count := by omega
        exact .inr ⟨k, rest, (next k rest).symm⟩
    · rw [if_neg more]
      have empty : count = 0 := by omega
      simp [empty]

theorem mem_zeroRegion (reduced : startLba < word32) : w ∈ zeroRegion startLba count ↔
      ∃ k, k * zeroChunkSectors < count ∧ w = chunk startLba count k :=
  mem_zeroRegionLoop (le_refl count) reduced

/-- Where the last chunk of a region starts. -/
def lastChunk (count : Nat) : Nat := (count - 1) / zeroChunkSectors * zeroChunkSectors

theorem lastChunk_lt (some : 0 < count) : lastChunk count < count := by
  unfold lastChunk zeroChunkSectors
  omega

theorem zeroRegion_straight (straight : startLba + lastChunk count < word32)
    (member : w ∈ zeroRegion startLba count) :
    startLba ≤ w.lba ∧ w.lba + w.count ≤ startLba + count ∧ w.buf = fun _ => 0 := by
  obtain ⟨k, below, rfl⟩ := (mem_zeroRegion (by omega)).mp member
  have noWrap : startLba + k * zeroChunkSectors < word32 := by
    unfold lastChunk zeroChunkSectors at *
    omega
  unfold chunk
  rw [Nat.mod_eq_of_lt noWrap]
  refine ⟨Nat.le_add_right _ _, ?_, rfl⟩
  dsimp only
  omega

theorem zeroRegion_last (some : 0 < count) (reduced : startLba < word32) :
    ∃ w ∈ zeroRegion startLba count, w.lba = (startLba + lastChunk count) % word32 :=
  ⟨_, (mem_zeroRegion reduced).mpr ⟨(count - 1) / zeroChunkSectors, lastChunk_lt some, rfl⟩, rfl⟩

theorem overlay_zeros (zeros : ∀ w ∈ ws, w.buf = fun _ => 0) (disk : Nat → Sector)
    (covered : disk sector = zeroSector ∨ ∃ w ∈ ws, w.lba ≤ sector ∧ sector < w.lba + w.count) :
    overlay ws disk sector = zeroSector := by
  induction ws generalizing disk with
  | nil => simpa using covered
  | cons w _ ih =>
    rw [overlay_cons]
    refine ih (fun w member => zeros w (mem_cons_of_mem _ member)) _ ?_
    by_cases here : w.lba ≤ sector ∧ sector < w.lba + w.count
    · refine .inl (funext fun i => ?_)
      rw [apply_read here.1 here.2, zeros w mem_cons_self]
      rfl
    · rw [apply_apart (by unfold Write.Apart; omega)]
      rcases covered with zero | ⟨other, member, inside⟩
      · exact .inl zero
      rcases mem_cons.mp member with rfl | member
      · exact absurd inside here
      · exact .inr ⟨other, member, inside⟩

theorem overlay_zeroRegion (straight : startLba + lastChunk count < word32)
    (disk : Nat → Sector) (sector : Nat) : overlay (zeroRegion startLba count) disk sector =
      if startLba ≤ sector ∧ sector < startLba + count then zeroSector else disk sector := by
  split
  next inside =>
      refine overlay_zeros (fun w member =>
        (zeroRegion_straight straight member).2.2) disk (.inr ?_)
      have below : (sector - startLba) / zeroChunkSectors * zeroChunkSectors < count := by
        unfold zeroChunkSectors
        omega
      have noWrap : startLba + (sector - startLba) / zeroChunkSectors *
          zeroChunkSectors < word32 := by
        unfold lastChunk zeroChunkSectors at *
        omega
      refine ⟨_, (mem_zeroRegion (by omega)).mpr ⟨_, below, rfl⟩, ?_⟩
      unfold chunk
      rw [Nat.mod_eq_of_lt noWrap]
      unfold zeroChunkSectors
      dsimp only
      omega
  next outside =>
      refine overlay_apart (fun w member => ?_) disk
      obtain ⟨low, high, _⟩ := zeroRegion_straight straight member
      unfold Write.Apart
      omega

end MainDob.Proofs.Block
