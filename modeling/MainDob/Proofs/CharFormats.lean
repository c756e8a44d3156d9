/-
Purpose: The format of a character, read with the start of its paragraph in hand,
  is the one that is read without; and formatting a range changes its bytes alone.
Main exports: Within, char_fmt_at_para, char_range_formats
-/
import MainDob.Proofs.ParagraphFormats

namespace MainDob.Proofs.Paragraphs

open Doc.Document Doc.Styles
open Doc.Runs (Payload)
open PieceTable (Holds)

/-- A position lies in paragraph `k`, which has `len` bytes from `p` on; the last
paragraph reaches past the end. -/
def Within (text : List UInt8) (k p len pos : Nat) : Prop :=
  p ≤ min pos text.length ∧ (min pos text.length < p + len ∨ k = paraOf text text.length)

variable {text : List UInt8} {k s e pos : Nat}

theorem StartsAt.le_iff (starts : StartsAt text k s) : s ≤ pos ↔ k ≤ paraOf text pos := by
  rw [← starts.index]
  refine ⟨paraOf_mono, fun atMost => ?_⟩
  by_contra behind
  have isInside := starts.inside
  have last := @paraOf_succ text (s - 1) (by omega)
  have before := @paraOf_mono text pos (s - 1) (by omega)
  rw [Nat.sub_add_cancel (by omega), if_pos (starts.edge.resolve_left (by omega))] at last
  omega

theorem Bounds.mem_iff (bounds : Bounds text k s e) (inside : pos ≤ text.length) :
    paraOf text pos = k ↔ s ≤ pos ∧ (pos < e ∨ k = paraOf text text.length) := by
  have atMost := @paraOf_mono text _ _ inside
  rw [bounds.starts.le_iff]
  rcases bounds.ends with next | ⟨rfl, last⟩
  · have upTo := next.present
    have before := @StartsAt.le_iff _ _ _ pos next
    omega
  · omega

variable {d : DfDoc}

/-- Every position lies in the paragraph that `df_doc_para_at` and
`df_doc_para_range` give, and for every paragraph and every position in it the
character has the same format on both paths. -/
theorem char_fmt_at_para (holds : Holds d.pt text) (cs : CharStyles) (pos : Nat) :
    (∃ k p len, paraAt d pos = some k ∧ paraRange d k = some (some (p, len)) ∧
      Within text k p len pos) ∧
    ∀ k p len, paraRange d k = some (some (p, len)) → Within text k p len pos →
      paraAt d pos = some k ∧ charFmtAtPara cs d p pos = charFmtAt cs d pos := by
  have inside : min pos text.length ≤ text.length := min_le_right ..
  have isAt := paraAt_eq holds pos
  constructor
  · obtain ⟨s, e, ranges, bounds⟩ := paraRange_some holds (paraOf_mono inside)
    refine ⟨_, s, e - s, isAt, ranges, ?_⟩
    unfold Within
    rw [Nat.add_sub_cancel' bounds.ordered]
    exact (bounds.mem_iff inside).mp rfl
  intro k p len ranges within
  rcases paraRange_spec holds k with ⟨s, e, ranges', bounds⟩ | ⟨absent, _⟩
  · cases ranges.symm.trans ranges'
    unfold Within at within
    rw [Nat.add_sub_cancel' bounds.ordered, ← bounds.mem_iff inside] at within
    rw [within] at isAt
    refine ⟨isAt, ?_⟩
    unfold charFmtAtPara charFmtAt
    rw [isAt]
    simp only [Option.bind_eq_bind, Option.bind_some, ranges, Option.getD_some]
  · cases ranges.symm.trans absent

open ParagraphFormats in
/-- The second of two lines. -/
theorem char_fmt_at_para_typed : ∃ d, typed 0 [97, 10, 98] Document.created = some d ∧ ∃ k p len,
    paraAt d 2 = some k ∧ paraRange d k = some (some (p, len)) ∧ Within [97, 10, 98] k p len 2 ∧
      charFmtAtPara ⟨Payload.zero, []⟩ d p 2 = charFmtAt ⟨Payload.zero, []⟩ d 2 := by
  obtain ⟨d, _, types, shown, text, _⟩ := typed_shows
  obtain ⟨⟨k, p, len, isAt, ranges, within⟩, same⟩ :=
    char_fmt_at_para shown.text ⟨Payload.zero, []⟩ 2
  exact ⟨d, types, k, p, len, isAt, ranges, text ▸ within, (same k p len ranges within).2⟩

/-! ### Formatting a range -/

open Doc (Runs.payloadAt)
open Document (View Shows)
open RunLists

theorem overlayChar_nothing (payload : CharFmt) {cf : CharFmt} (nothing : cf.mask = 0) :
    overlayChar payload cf = payload := by
  unfold overlayChar
  simp only [nothing, UInt16.zero_and, ne_eq, not_true_eq_false, if_false]

variable {v : View} {n : Nat}

/-- Formatting a range of a document lays the format over that of the bytes of
the range and leaves every other byte its format; text, paragraphs and sections
stay as they are. -/
theorem char_range_formats (shown : Shows d v) (room : Room d.cruns 2)
    (inside : pos + n ≤ v.text.length) (cf : CharFmt) : ∃ d', applyCharFmt d pos n (some cf) = some
    (.ok, d') ∧ d'.pt = d.pt ∧ d'.pruns = d.pruns ∧ d'.sruns = d.sruns ∧ d'.sections = d.sections ∧
      ∀ q < v.text.length, Runs.payloadAt d'.cruns q = (Runs.payloadAt d.cruns q).map fun payload =>
          if pos ≤ q ∧ q < pos + n then overlayChar payload cf else payload := by
  by_cases nothing : n = 0 ∨ cf.mask = 0
  · refine ⟨d, by simp [applyCharFmt, nothing], rfl, rfl, rfl, rfl, fun q _ => ?_⟩
    rcases nothing with none | none
    · have outside : ¬(pos ≤ q ∧ q < pos + n) := by omega
      simp [outside]
    · simp [overlayChar_nothing _ none]
  obtain ⟨us, snaps, _⟩ := shown.snapshot
  have spans := shown.layers.spansC
  obtain ⟨cruns, applies, spans'⟩ := spans.apply room pos n (overlayChar · cf) fun _ => id
  have formatted := (apply_formats spans room inside (mt .inl nothing) applies).1
  refine ⟨{ d with ustack := (us :: d.ustack).take undoMax, rstack := [], cruns := cruns },
    ?_, rfl, rfl, rfl, rfl, fun q low => ?_⟩
  · simp [applyCharFmt, doApplyChar, beginEdit, snaps, applies, nothing, or_comm]
  · have there : q < (formats d.cruns.runs).length := by
      rwa [length_formats, spans.sum]
    rw [payloadAt_eq (spans'.sum ▸ spans'.small), payloadAt_eq (spans.sum ▸ spans.small),
      formatted q low, List.getElem?_eq_getElem there]
    rfl

open ParagraphFormats in
/-- The second line becomes bold. -/
theorem char_range_formats_typed : ∃ d d' cf,
    typed 0 [97, 10, 98] Document.created = some d ∧ applyCharFmt d 2 1 (some cf) = some (.ok, d') ∧
    ∀ q < 3, Runs.payloadAt d'.cruns q = (Runs.payloadAt d.cruns q).map fun payload =>
        if 2 ≤ q ∧ q < 2 + 1 then overlayChar payload cf else payload := by
  obtain ⟨d, v, types, shown, text, _, _, _, _, _, room⟩ := typed_shows
  have count : v.text.length = 3 := congrArg List.length text
  obtain ⟨d', applies, _, _, _, _, formats⟩ := @char_range_formats _ _ _ 1 shown room
    (le_of_eq count.symm) { (Payload.zero : CharFmt) with mask := cfBold, bold := 1 }
  exact ⟨d, d', _, types, applies, fun q low => formats q (count ▸ low)⟩

end MainDob.Proofs.Paragraphs
