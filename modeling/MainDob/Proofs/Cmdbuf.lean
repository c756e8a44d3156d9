/-
Purpose: Frames are put together from their segments. A frame that arrives whole is delivered, and
  as long as no segment follows the one before it of another frame of the same size, nothing but
  frames is.
Main exports: Holds, Unmixed, cmdbuf_delivers_frames
-/
import Mathlib.Data.List.Chain
import MainDob.Ui.Cmdbuf

namespace MainDob.Ui

open List

variable {f : Frame} {k : Nat} {r : Reasm}

/-! ### One segment -/

/-- The reassembly has the first segments of a frame. -/
structure Holds (f : Frame) (k : Nat) (r : Reasm) : Prop where
  bytes : r.bytes = f.bytes.take (k * cmdbufSegBytes)
  cap : r.cap ≠ 0
  segs : r.totalSegs = f.segs
  total : r.totalBytes = f.bytes.length
  expect : r.expectSeq = k

theorem lt_segs_iff : k < f.segs ↔ k * cmdbufSegBytes < f.bytes.length := by
  rw [Frame.segs, segsOf, cmdbufSegBytes]
  omega

theorem length_segment : ((f.bytes.drop (k * cmdbufSegBytes)).take cmdbufSegBytes).length =
      min ((k + 1) * cmdbufSegBytes) f.bytes.length - k * cmdbufSegBytes := by
  rw [length_take, length_drop, Nat.succ_mul]
  omega

theorem segment_formed (bound : k < f.segs) : ¬ ((segment f k).payload.getD [] = [] ∨
    (segment f k).arg3 = 0 ∨ (segment f k).arg3 > cmdbufMaxBytes ∨
      (segment f k).arg2 ≠ segsOf (segment f k).arg3) := by
  have inside := lt_segs_iff.mp bound
  rintro (empty | zero | large | other)
  · have length := congrArg List.length empty
    rw [segment, Option.getD_some, length_segment, length_nil, Nat.succ_mul,
      cmdbufSegBytes] at length
    rw [cmdbufSegBytes] at inside
    omega
  · exact f.some (length_eq_zero_iff.mp zero)
  · exact absurd f.fits (Nat.not_le.mpr large)
  · exact other rfl

theorem absorb_segment (bound : k < f.segs) (length : r.bytes.length = k * cmdbufSegBytes)
    (cap : r.cap ≠ 0) (segs : r.totalSegs = f.segs) (total : r.totalBytes = f.bytes.length) :
    let bytes := r.bytes ++ (f.bytes.drop (k * cmdbufSegBytes)).take cmdbufSegBytes
    absorb r k ((f.bytes.drop (k * cmdbufSegBytes)).take cmdbufSegBytes) =
      if k + 1 = f.segs then (some bytes, { r with bytes, expectSeq := 0 })
      else (none, { r with bytes, expectSeq := k + 1 }) := by
  intro bytes
  have inside := lt_segs_iff.mp bound
  have fits := f.fits
  have size : bytes.length = min ((k + 1) * cmdbufSegBytes) f.bytes.length := by
    rw [length_append, length, length_segment, Nat.succ_mul]
    omega
  have last : k + 1 = f.segs ↔ bytes.length = f.bytes.length ∧ k + 1 = f.segs := by
    refine ⟨fun last => ⟨?_, last⟩, And.right⟩
    have all := mt lt_segs_iff.mpr (Nat.not_lt.mpr (le_of_eq last.symm))
    omega
  have small : bytes.length < 2 ^ 32 := by
    rw [cmdbufMaxBytes] at fits
    omega
  have next : (k + 1) % 2 ^ 32 = k + 1 := by
    rw [cmdbufMaxBytes] at fits
    rw [cmdbufSegBytes] at inside
    omega
  have sum : r.bytes.length + ((f.bytes.drop (k * cmdbufSegBytes)).take cmdbufSegBytes).length =
      bytes.length := length_append.symm
  unfold absorb
  rw [sum, Nat.mod_eq_of_lt small, next, total, segs,
    if_neg (not_or.mpr ⟨cap, Nat.not_lt.mpr (by omega)⟩)]
  by_cases done : k + 1 = f.segs
  · rw [if_pos done]
    exact if_pos ⟨done, (last.mp done).1⟩
  · rw [if_neg done]
    exact if_neg fun both => done both.1

theorem ingest_start (many : ¬ f.segs ≤ 1) : cmdbufReasmIngest r (segment f 0) =
    absorb ⟨[], if f.bytes.length > r.cap then f.bytes.length else r.cap, f.segs, f.bytes.length,
      r.expectSeq⟩ 0 ((f.bytes.drop (0 * cmdbufSegBytes)).take cmdbufSegBytes) := by
  have formed := segment_formed (f := f) (k := 0) (by omega)
  exact (if_neg many).trans ((if_neg formed).trans (if_pos rfl))

theorem ingest_later (many : ¬ f.segs ≤ 1) (bound : k < f.segs) (later : k ≠ 0) :
    cmdbufReasmIngest r (segment f k) =
      if k ≠ r.expectSeq ∨ r.totalSegs ≠ f.segs ∨ r.totalBytes ≠ f.bytes.length then
        (none, { r with expectSeq := 0 })
      else absorb r k ((f.bytes.drop (k * cmdbufSegBytes)).take cmdbufSegBytes) :=
  (if_neg many).trans ((if_neg (segment_formed bound)).trans (if_neg later))

theorem ingest_next (many : ¬ f.segs ≤ 1) (bound : k < f.segs) (ready : k = 0 ∨ Holds f k r) :
    if k + 1 = f.segs then (cmdbufReasmIngest r (segment f k)).1 = some f.bytes ∧
      (cmdbufReasmIngest r (segment f k)).2.expectSeq = 0 else (cmdbufReasmIngest r
    (segment f k)).1 = none ∧ Holds f (k + 1) (cmdbufReasmIngest r (segment f k)).2 := by
  obtain ⟨r', step, held⟩ : ∃ r', cmdbufReasmIngest r (segment f k) = absorb r' k
      ((f.bytes.drop (k * cmdbufSegBytes)).take cmdbufSegBytes) ∧
      r'.cap ≠ 0 ∧ r'.totalSegs = f.segs ∧
        r'.totalBytes = f.bytes.length ∧ r'.bytes = f.bytes.take (k * cmdbufSegBytes) := by
    by_cases first : k = 0
    · cases first
      have some := length_pos_iff.mpr f.some
      refine ⟨_, ingest_start many, ?_, rfl, rfl, by rw [zero_mul, take_zero]⟩
      dsimp only
      split <;> omega
    · have holds := ready.resolve_left first
      refine ⟨r, ?_, holds.cap, holds.segs, holds.total, holds.bytes⟩
      rw [ingest_later many bound first, if_neg]
      simp [holds.expect, holds.segs, holds.total]
  obtain ⟨cap, segs, total, bytes⟩ := held
  have inside := lt_segs_iff.mp bound
  have length : r'.bytes.length = k * cmdbufSegBytes := by
    rw [bytes, length_take]
    omega
  have joined : r'.bytes ++ (f.bytes.drop (k * cmdbufSegBytes)).take cmdbufSegBytes =
      f.bytes.take ((k + 1) * cmdbufSegBytes) := by
    rw [bytes, Nat.succ_mul, take_add]
  rw [step, absorb_segment bound length cap segs total, joined]
  split
  · rename_i last
    have all := mt lt_segs_iff.mpr (Nat.not_lt.mpr (le_of_eq last.symm))
    exact ⟨congrArg some (take_of_length_le (Nat.not_lt.mp all)), rfl⟩
  · exact ⟨rfl, rfl, cap, segs, total, rfl⟩

theorem ingest_single (single : f.segs ≤ 1) (bound : k < f.segs) : (cmdbufReasmIngest r
    (segment f k)).1 = some f.bytes ∧ (cmdbufReasmIngest r (segment f k)).2.expectSeq = 0 := by
  have first : k = 0 := by omega
  have all : f.bytes.length ≤ cmdbufSegBytes := by
    have past := mt (lt_segs_iff (k := 1)).mpr (Nat.not_lt.mpr single)
    rwa [one_mul, not_lt] at past
  cases first
  have step : cmdbufReasmIngest r (segment f 0) =
      ((segment f 0).payload.filter (· ≠ []), { r with expectSeq := 0 }) := if_pos single
  rw [step]
  simp [segment, take_of_length_le all, f.some]

/-! ### All that arrives -/

/-- No segment follows the one before it of another frame of the same size. -/
def Unmixed (arrived : List (Frame × Nat)) : Prop :=
  arrived.IsChain fun a b =>
    b.2 = a.2 + 1 → a.1.bytes.length = b.1.bytes.length → a.1 = b.1

/-- The reassembly waits for nothing, or for what follows the segment that came last. -/
def Waits (last : Option (Frame × Nat)) (r : Reasm) : Prop :=
  r.expectSeq = 0 ∨ ∃ a ∈ last, Holds a.1 (a.2 + 1) r

theorem ingest_waits {last : Option (Frame × Nat)} (waits : Waits last r) (bound : k < f.segs)
    (unmixed : ∀ a ∈ last, k = a.2 + 1 → a.1.bytes.length = f.bytes.length → a.1 = f) :
    (∀ buf ∈ (cmdbufReasmIngest r (segment f k)).1, buf = f.bytes) ∧
      Waits (some (f, k)) (cmdbufReasmIngest r (segment f k)).2 := by
  by_cases single : f.segs ≤ 1
  · obtain ⟨out, expect⟩ := ingest_single (r := r) single bound
    rw [out]
    exact ⟨fun _ same => (Option.some.inj same).symm, Or.inl expect⟩
  by_cases ready : k = 0 ∨ Holds f k r
  · have next := ingest_next single bound ready
    split at next
    · rw [next.1]
      exact ⟨fun _ same => (Option.some.inj same).symm, Or.inl next.2⟩
    · rw [next.1]
      exact ⟨nofun, Or.inr ⟨_, rfl, next.2⟩⟩
  · obtain ⟨later, other⟩ := not_or.mp ready
    rw [ingest_later single bound later, if_pos]
    · exact ⟨nofun, Or.inl rfl⟩
    · by_contra accepted
      simp only [not_or, not_not] at accepted
      obtain ⟨expect, _, total⟩ := accepted
      obtain ⟨a, came, holds⟩ := waits.resolve_left (expect ▸ later)
      have seq : k = a.2 + 1 := expect.trans holds.expect
      have same := unmixed a came seq (holds.total.symm.trans total)
      exact other (seq ▸ same ▸ holds)

theorem delivered_frames {last : Option (Frame × Nat)} {arrived : List (Frame × Nat)}
    (bounds : ∀ a ∈ arrived, a.2 < a.1.segs) (unmixed : Unmixed (last.toList ++ arrived))
    (waits : Waits last r) {buf : List UInt8} (delivered : some buf ∈
      (Lib.answers cmdbufReasmIngest r (arrived.map fun (f, k) => segment f k)).1) :
    ∃ a ∈ arrived, buf = a.1.bytes := by
  induction arrived generalizing last r with
  | nil => cases delivered
  | cons a arrived ih =>
    obtain ⟨f, k⟩ := a
    have bound := bounds _ mem_cons_self
    have chain : Unmixed ((some (f, k)).toList ++ arrived) := by
      cases last with
      | none => exact unmixed
      | some => exact (isChain_cons_cons.mp unmixed).2
    obtain ⟨own, after⟩ := ingest_waits waits bound (by
      rintro _ ⟨⟩
      exact (isChain_cons_cons.mp unmixed).1)
    rw [map_cons, Lib.mem_answers_cons] at delivered
    rcases delivered with now | later
    · exact ⟨_, mem_cons_self, own buf now.symm⟩
    · obtain ⟨a, member, same⟩ := ih
        (fun a member => bounds a (mem_cons_of_mem _ member)) chain after later
      exact ⟨a, mem_cons_of_mem _ member, same⟩

theorem delivers_rest {n : Nat} (rest : k + n = f.segs) (some : 0 < n)
    (ready : k = 0 ∨ Holds f k r) : Option.some f.bytes ∈
      (Lib.answers cmdbufReasmIngest r ((List.range' k n).map (segment f))).1 := by
  induction n generalizing k r with
  | zero => cases some
  | succ n ih =>
    rw [List.range'_succ, map_cons, Lib.mem_answers_cons]
    by_cases single : f.segs ≤ 1
    · have done := (ingest_single (r := r) single (k := k) (by omega)).1
      exact .inl done.symm
    have next := ingest_next single (by omega) ready
    split at next
    · exact .inl next.1.symm
    · exact .inr (ih (by omega) (by omega) (Or.inr next.2))

theorem segs_pos (f : Frame) : 0 < f.segs := by
  rw [lt_segs_iff, zero_mul]
  exact length_pos_iff.mpr f.some

section

variable {frames : List Frame} {lost : Nat → Nat → Bool}

theorem delivers_whole {i : Nat}
    (there : frames[i]? = some f) (whole : ∀ k < f.segs, lost i k = false) :
    some f.bytes ∈ deliveries (arrivals frames lost) := by
  have member : (f, i) ∈ frames.zipIdx := mem_zipIdx_iff_getElem?.mpr there
  obtain ⟨_, _, split⟩ := append_of_mem member
  have kept : (List.range f.segs).filter (fun k => !lost i k) = List.range f.segs :=
    filter_eq_self.mpr fun k bound => by rw [whole k (mem_range.mp bound)]; rfl
  unfold deliveries arrivals
  rw [split, flatMap_append, flatMap_cons, map_append, map_append,
    Lib.answers_append, Lib.answers_append]
  refine mem_append_right _ (mem_append_left _ ?_)
  dsimp only
  rw [kept, map_map, range_eq_range']
  exact delivers_rest (zero_add _) (segs_pos f) (Or.inl rfl)

theorem arrivals_mem {a : Frame × Nat}
    (arrived : a ∈ arrivals frames lost) : a.1 ∈ frames ∧ a.2 < a.1.segs := by
  obtain ⟨⟨_, _⟩, sent, kept⟩ := mem_flatMap.mp arrived
  obtain ⟨_, bound, rfl⟩ := mem_map.mp kept
  exact ⟨(mem_zipIdx sent).2.2 ▸ getElem_mem _, mem_range.mp (mem_filter.mp bound).1⟩

end

/-- Where no segment follows the one before it of another frame of the same size, only frames
are delivered; and a frame that arrives whole always is. -/
theorem cmdbuf_delivers_frames (frames : List Frame) (lost : Nat → Nat → Bool) :
    (Unmixed (arrivals frames lost) → ∀ buf, some buf ∈ deliveries (arrivals frames lost) →
      ∃ f ∈ frames, buf = f.bytes) ∧ ∀ i f, frames[i]? = some f →
    (∀ k < f.segs, lost i k = false) → some f.bytes ∈ deliveries (arrivals frames lost) := by
  refine ⟨fun unmixed buf delivered => ?_, fun i f there whole => delivers_whole there whole⟩
  obtain ⟨a, arrived, same⟩ := @delivered_frames {} none _
    (fun a arrived => (arrivals_mem arrived).2) unmixed (.inl rfl) _ delivered
  exact ⟨a.1, (arrivals_mem arrived).1, same⟩

/-- A frame of two segments, all of whose bytes are the same. -/
def uniform (b : UInt8) : Frame where
  bytes := List.replicate 32769 b
  some := nofun
  fits := by
    rw [List.length_replicate]
    decide

theorem length_uniform (b : UInt8) : (uniform b).bytes.length = 32769 := length_replicate

theorem segs_uniform (b : UInt8) : (uniform b).segs = 2 := by
  rw [Frame.segs, length_uniform]
  rfl

/-- The second segment of the first frame is lost: the other frame is delivered,
and nothing else. -/
theorem cmdbuf_delivers_frames_lossy : some (uniform 1).bytes ∈ deliveries
    (arrivals [uniform 0, uniform 1] fun i k => i < k) ∧ ∀ buf, some buf ∈ deliveries (arrivals
      [uniform 0, uniform 1] fun i k => i < k) → ∃ f ∈ [uniform 0, uniform 1], buf = f.bytes := by
  have arrived : arrivals [uniform 0, uniform 1] (fun i k => i < k) =
      [(uniform 0, 0), (uniform 1, 0), (uniform 1, 1)] := by
    simp [arrivals, segs_uniform, range_succ]
  have unmixed : Unmixed (arrivals [uniform 0, uniform 1] fun i k => i < k) := by
    rw [arrived]
    simp [Unmixed]
  obtain ⟨only, whole⟩ := cmdbuf_delivers_frames [uniform 0, uniform 1] fun i k => i < k
  refine ⟨whole 1 (uniform 1) rfl fun k inside => ?_, only unmixed⟩
  rw [segs_uniform] at inside
  simpa using Nat.lt_succ_iff.mp inside

theorem ingest_mixed {g : Frame} (holds : Holds f k r) (same : f.bytes.length = g.bytes.length)
    (last : k + 1 = g.segs) (later : k ≠ 0) :
    (cmdbufReasmIngest r (segment g k)).1 = some (f.bytes.take (k * cmdbufSegBytes) ++
      (g.bytes.drop (k * cmdbufSegBytes)).take cmdbufSegBytes) := by
  have segs : f.segs = g.segs := congrArg segsOf same
  have bound : k < g.segs := by omega
  have inside := lt_segs_iff.mp (segs ▸ bound)
  have length : r.bytes.length = k * cmdbufSegBytes := by
    rw [holds.bytes, length_take]
    omega
  rw [ingest_later (by omega) bound later, if_neg, absorb_segment bound length holds.cap
    (holds.segs.trans segs) (holds.total.trans same), if_pos last, holds.bytes]
  simp [holds.expect, holds.segs, holds.total, segs, same]

theorem delivers_mixed {g : Frame} (two : f.segs = 2) (same : f.bytes.length = g.bytes.length) :
    some (f.bytes.take (1 * cmdbufSegBytes) ++
        (g.bytes.drop (1 * cmdbufSegBytes)).take cmdbufSegBytes) ∈
      deliveries (arrivals [f, g] fun i k => i + k = 1) := by
  have two' : g.segs = 2 := (congrArg segsOf same.symm).trans two
  have arrived : arrivals [f, g] (fun i k => i + k = 1) = [(f, 0), (g, 1)] := by
    simp [arrivals, two, two', range_succ]
  have first := ingest_next (f := f) (k := 0) (r := {}) (by omega) (by omega) (Or.inl rfl)
  rw [two, if_neg (by decide)] at first
  have second := ingest_mixed first.2 same two'.symm (by decide)
  rw [arrived, deliveries, map_cons, map_cons, Lib.mem_answers_cons, Lib.mem_answers_cons]
  exact .inr (.inl second.symm)

/-- The first segment of zeros and the second segment of ones are put together. -/
theorem mixes {g : Frame} (two : f.segs = 2) (same : f.bytes.length = g.bytes.length)
    (zeros : ∀ c ∈ f.bytes, c = 0) (ones : ∀ c ∈ g.bytes, c = 1) : ∃ buf,
    some buf ∈ deliveries (arrivals [f, g] fun i k => i + k = 1) ∧ ∀ h ∈ [f, g], buf ≠ h.bytes := by
  have inside : 1 * cmdbufSegBytes < f.bytes.length := lt_segs_iff.mp (by omega)
  have low : f.bytes.take (1 * cmdbufSegBytes) ≠ [] := by
    rw [← length_pos_iff, length_take]
    exact lt_min (by decide) (by omega)
  have high : (g.bytes.drop (1 * cmdbufSegBytes)).take cmdbufSegBytes ≠ [] := by
    rw [← length_pos_iff, length_take, length_drop]
    exact lt_min (by decide) (by omega)
  obtain ⟨b, isLow⟩ := exists_mem_of_ne_nil _ low
  obtain ⟨c, isHigh⟩ := exists_mem_of_ne_nil _ high
  have zero := zeros b (mem_of_mem_take isLow)
  have one := ones c (mem_of_mem_drop (mem_of_mem_take isHigh))
  refine ⟨_, delivers_mixed two same, forall_mem_cons.mpr ⟨fun mixed => ?_,
    forall_mem_cons.mpr ⟨fun mixed => ?_, nofun⟩⟩⟩
  · have zero' := zeros c (mixed ▸ mem_append_right _ isHigh)
    exact absurd (zero'.symm.trans one) (by decide)
  · have one' := ones b (mixed ▸ mem_append_left _ isLow)
    exact absurd (zero.symm.trans one') (by decide)

theorem cmdbuf_mixes_frames : ∃ buf, some buf ∈ deliveries (arrivals
    [uniform 0, uniform 1] fun i k => i + k = 1) ∧ ∀ f ∈ [uniform 0, uniform 1], buf ≠ f.bytes :=
  mixes (segs_uniform 0) ((length_uniform 0).trans (length_uniform 1).symm)
    (fun _ member => eq_of_mem_replicate member) fun _ member => eq_of_mem_replicate member

end MainDob.Ui
