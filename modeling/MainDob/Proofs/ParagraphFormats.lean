/-
Purpose: When the edits of a document keep the formats of its paragraphs: text
  that is inserted where a paragraph starts takes the format to its left, and an
  empty last paragraph has the format of the last run.
Trusted boundary: none (fully proved)
Main exports: formatAt, InsertKeeps, paragraph_formats
-/
import MainDob.Doc.Styles
import MainDob.Proofs.DocumentHistory
import MainDob.Proofs.Paragraphs
import MainDob.Proofs.RunFormats

namespace MainDob.Proofs.ParagraphFormats

open Doc Doc.Document Doc.Styles
open Doc.PieceTable (word)
open Doc.Runs (Payload)
open Document Paragraphs RunLists
open PieceTable (Holds InsertFits)
open List Option

/-- The format of a paragraph that starts at a position. -/
def formatAt (styles : List Style) (d : DfDoc) (pos : Nat) : Option ParaFmt :=
  (Runs.payloadAt d.pruns pos).map (paraFmtOf styles)

/-- The condition for inserting: where a paragraph starts at the position, the run
that takes the bytes resolves to the format of the paragraph. -/
def InsertKeeps (styles : List Style) (d : DfDoc) (text : List UInt8) (pos : Nat) :
    Prop :=
  ∀ k, StartsAt text k pos → (taker d.pruns pos).map (paraFmtOf styles) = formatAt styles d pos

/-- The first position of a range, which is not past the end. -/
def firstPos (text : List UInt8) (pos : Nat) : Nat := min pos text.length

/-- The last position of a range, before it is clipped. -/
def lastPos (text : List UInt8) (pos n : Nat) : Nat :=
  if n = 0 then firstPos text pos else firstPos text pos + n - 1

/-- The paragraph intersects the range: it is one of those from that of the first
position to that of the last one. -/
def Touches (text : List UInt8) (pos n k : Nat) : Prop :=
  paraOf text (firstPos text pos) ≤ k ∧ k ≤ paraOf text (min (lastPos text pos n) text.length)

instance (text : List UInt8) (pos n k : Nat) : Decidable (Touches text pos n k) :=
  inferInstanceAs (Decidable (_ ∧ _))

/-- The condition for formatting: an empty last paragraph is to come to the format
that the last run has then.  It keeps its payload when nothing is formatted, and
else it is that of the last byte. -/
def SetKeeps (styles : List Style) (d : DfDoc) (text : List UInt8) (pos n : Nat)
    (pf : ParaFmt) : Prop :=
  let last := paraOf text text.length
  let formed (k : Nat) (payload : ParaFmt) :=
    paraFmtOf styles (if Touches text pos n k then overlayPara payload pf else payload)
  StartsAt text last text.length → (Runs.payloadAt d.pruns text.length).map (formed last) =
      if paraOf text (firstPos text pos) = last then formatAt styles d text.length
      else (Runs.payloadAt d.pruns (text.length - 1)).map (formed (last - 1))

section Resolved

variable {styles : List Style} {d : DfDoc} {text : List UInt8} {k s : Nat}

theorem paraFmtResolved_eq (holds : Holds d.pt text) (starts : StartsAt text k s) :
    paraFmtResolved styles d k = formatAt styles d s := by
  obtain ⟨_, _, ranges, bounds⟩ := paraRange_some holds starts.present
  cases bounds.starts.unique starts
  unfold paraFmtResolved formatAt
  rw [ranges]
  simp only [bind_eq_bind, bind_some]
  cases Runs.payloadAt d.pruns s <;> rfl

theorem paraFmtResolved_absent (holds : Holds d.pt text) (absent : paraOf text text.length < k) :
    paraFmtResolved styles d k = some (resolveStylePara styles 0) := by
  rcases paraRange_spec holds k with ⟨s, e, _, bounds⟩ | ⟨none, _⟩
  · have := bounds.starts.present
    omega
  · unfold paraFmtResolved
    rw [none]
    rfl

end Resolved

variable {d : DfDoc} {v : View}

theorem insert_spec (shown : Shows d v) {pos : Nat} {data : List UInt8}
    (inside : pos ≤ v.text.length) (some : data.length ≠ 0) (fits : InsertFits d.pt data.length) :
    ∃ d', Document.insert d pos data = Option.some (.ok, d') ∧ Holds d'.pt (v.text.take pos ++
      data ++ v.text.drop pos) ∧ Runs.insert d.pruns pos data.length = Option.some d'.pruns := by
  obtain ⟨us, snaps, _⟩ := shown.snapshot
  have begun : Shows { d with ustack := (us :: d.ustack).take undoMax, rstack := [] } v :=
    { shown with }
  have total : d.pt.total = v.text.length := shown.text.total
  have room : pos ≤ d.pt.total := by
    rw [total]
    exact inside
  obtain ⟨d', v', inserts, _, shown', _, text, pruns⟩ := begun.insertText room fits
  refine ⟨d', ?_, text ▸ shown'.text, pruns⟩
  unfold Document.insert
  rw [if_neg (by omega), if_neg some]
  simp only [beginEdit, snaps]
  exact inserts

/-- Inserting text without a line feed keeps the format of every paragraph exactly
when the run that takes it has the format of the paragraph that starts there. -/
theorem insert_formats_iff (shown : Shows d v) (styles : List Style) {pos : Nat} {data : List UInt8}
    (inside : pos ≤ v.text.length) (plain : lineFeed ∉ data) (some : data.length ≠ 0)
    (fits : InsertFits d.pt data.length) : ∃ d', Document.insert d pos data = Option.some
    (.ok, d') ∧ ((∀ k, paraFmtResolved styles d' k = paraFmtResolved styles d k) ↔
        InsertKeeps styles d v.text pos) := by
  obtain ⟨d', inserts, holds, insertsP⟩ := insert_spec shown inside some fits
  refine ⟨d', inserts, ?_⟩
  have spans := shown.layers.spansP
  have small : v.text.length + data.length < word := by
    rw [← shown.text.total]
    exact fits.2.1
  obtain ⟨payload, takes, bytes, last⟩ := insert_formats spans inside small insertsP some
  obtain ⟨pruns', insertsP', spans', _⟩ := spans.insert pos small
  cases insertsP.symm.trans insertsP'
  have length : (formats d.pruns.runs).length = v.text.length := (length_formats _).trans spans.sum
  -- A start that is not the position reads the payload that it read before.
  have reads {k s : Nat} (starts : StartsAt v.text k s) :
      paraFmtResolved styles d' k = if s = pos then Option.some (paraFmtOf styles payload)
        else paraFmtResolved styles d k := by
    have shifted := starts.insert inside plain
    rw [paraFmtResolved_eq holds shifted, paraFmtResolved_eq shown.text starts]
    unfold formatAt
    rw [payloadAt_eq (by rw [spans'.sum]; exact spans'.small),
      payloadAt_eq (by rw [spans.sum]; exact spans.small), last, bytes]
    have front : ((formats d.pruns.runs).take pos).length = pos := by
      rw [length_take]
      omega
    by_cases before : s ≤ pos
    · rw [if_pos before, append_assoc]
      by_cases here : s = pos
      · subst here
        rw [if_pos rfl, List.getElem?_append_right (by omega), front, Nat.sub_self,
          List.getElem?_append_left (by simp; omega), List.getElem?_replicate, if_pos (by omega)]
        rfl
      · rw [if_neg here, List.getElem?_append_left (by omega), List.getElem?_take_of_lt (by omega)]
    · rw [if_neg before, if_neg (by omega), List.getElem?_append_right (by
        simp only [length_append, front, length_replicate]; omega),
        List.getElem?_drop, length_append, front, length_replicate,
        show pos + (s + data.length - (pos + data.length)) = s by omega]
  constructor
  · intro kept k starts
    have same := kept k
    rw [reads starts, if_pos rfl, paraFmtResolved_eq shown.text starts] at same
    rw [takes]
    exact same
  intro keeps k
  by_cases present : k ≤ paraOf v.text v.text.length
  · obtain ⟨_, _, _, bounds⟩ := paraRange_some shown.text present
    rw [reads bounds.starts]
    split
    next here =>
      subst here
      have same := keeps k bounds.starts
      rw [takes] at same
      exact same.trans (paraFmtResolved_eq shown.text bounds.starts).symm
    next => rfl
  · have count : paraOf (v.text.take pos ++ data ++ v.text.drop pos)
        (v.text.take pos ++ data ++ v.text.drop pos).length = paraOf v.text v.text.length := by
      have none := count_eq_zero_of_not_mem plain
      unfold paraOf
      rw [take_length, take_length, count_append, count_append,
        none, add_zero, ← count_append, take_append_drop]
    rw [paraFmtResolved_absent holds (by omega), paraFmtResolved_absent shown.text (by omega)]

/-! ### Formatting a range -/

/-- What `df_doc_set_para_fmt` does: it formats the bytes from where the first
paragraph of the range starts to where the last one ends. -/
theorem setParaFmt_spec (shown : Shows d v) (room : Room d.pruns 2) {pos n : Nat}
    {pf : ParaFmt} (some : pf.mask ≠ 0) :
    ∃ d' s e s₁ e₁, setParaFmt d pos n (Option.some pf) = Option.some (.ok, d') ∧
    d'.pt = d.pt ∧ Bounds v.text (paraOf v.text (firstPos v.text pos)) s e ∧ Bounds v.text
      (paraOf v.text (min (paraEnd v.text.length (firstPos v.text pos) n) v.text.length)) s₁ e₁ ∧
      Runs.apply d.pruns s ((e₁ + word - s) % word) (overlayPara · pf) = Option.some d'.pruns := by
  obtain ⟨us, snaps, _⟩ := shown.snapshot
  let begun : DfDoc := { d with ustack := (us :: d.ustack).take undoMax, rstack := [] }
  have total : begun.pt.total = v.text.length := shown.text.total
  have clamped : (if pos > v.text.length then v.text.length else pos) = firstPos v.text pos := by
    unfold firstPos
    split <;> omega
  have present (at_ : Nat) : paraOf v.text (min at_ v.text.length) ≤
      paraOf v.text v.text.length := paraOf_mono (min_le_right ..)
  have low : min (firstPos v.text pos) v.text.length = firstPos v.text pos :=
    min_eq_left (min_le_right ..)
  obtain ⟨s, e, ranges, bounds⟩ :=
    paraRange_some (d := begun) shown.text (present (firstPos v.text pos))
  obtain ⟨s₁, e₁, ranges₁, bounds₁⟩ := paraRange_some (d := begun) shown.text
    (present (paraEnd v.text.length (firstPos v.text pos) n))
  have span : paraSpan (s, e - s) (s₁, e₁ - s₁) = (e₁ + word - s) % word := by
    unfold paraSpan
    rw [Nat.add_sub_cancel' bounds₁.ordered]
  obtain ⟨pruns, applies, _⟩ := shown.layers.spansP.apply room s
    ((e₁ + word - s) % word) (overlayPara · pf) fun _ => id
  rw [low] at bounds ranges
  have first := paraAt_eq (d := begun) shown.text (firstPos v.text pos)
  have last := paraAt_eq (d := begun) shown.text (paraEnd v.text.length (firstPos v.text pos) n)
  rw [low] at first
  refine ⟨{ begun with pruns := pruns }, s, e, s₁, e₁, ?_, rfl, bounds, bounds₁, applies⟩
  have done : doSetPara begun pos n pf = Option.some { begun with pruns := pruns } := by
    unfold doSetPara
    dsimp only
    rw [total, clamped, first, bind_eq_bind, bind_some, last, bind_eq_bind, bind_some,
      ranges, bind_eq_bind, bind_some, ranges₁, bind_some, getD_some, getD_some, span, applies]
    rfl
  unfold setParaFmt
  dsimp only
  rw [if_neg some]
  simp only [beginEdit, snaps, bind_eq_bind, bind_some]
  change (doSetPara begun pos n pf).bind _ = _
  rw [done]
  rfl

theorem paraEnd_eq {text : List UInt8} {pos n : Nat} (noWrap : firstPos text pos + n ≤ word) :
    min (paraEnd text.length (firstPos text pos) n) text.length =
      if lastPos text pos n > text.length then text.length - 1 else lastPos text pos n := by
  have raw : (if n = 0 then firstPos text pos
      else (firstPos text pos + n + word - 1) % word) = lastPos text pos n := by
    unfold lastPos
    split
    next => rfl
    next more =>
      rw [show firstPos text pos + n + word - 1 = firstPos text pos + n - 1 + word by
        omega, Nat.add_mod_right, Nat.mod_eq_of_lt (by omega)]
  unfold paraEnd
  rw [raw]
  dsimp only
  split
  next past =>
    rw [show (if text.length ≠ 0 then text.length - 1 else 0) = text.length - 1 by
      split <;> omega]
    exact min_eq_left (Nat.sub_le ..)
  next within => exact min_eq_left (Nat.le_of_not_gt within)

section Span

variable {text : List UInt8} {pos n s e s₁ e₁ : Nat}
  (bounds : Bounds text (paraOf text (firstPos text pos)) s e)
  (bounds₁ : Bounds text (paraOf text (if lastPos text pos n > text.length then text.length - 1
      else lastPos text pos n)) s₁ e₁)

include bounds bounds₁

theorem span_ordered : s ≤ e₁ ∧ e₁ ≤ text.length := by
  have low : firstPos text pos ≤ text.length := min_le_right ..
  rcases bounds₁.ends with next | ⟨rfl, _⟩
  · refine ⟨?_, next.inside⟩
    rw [← not_lt, next.lt_iff bounds.starts, not_lt]
    split
    next past =>
      by_cases nothing : text.length = 0
      · exact Nat.le_succ_of_le (paraOf_mono (by omega))
      have last := @paraOf_succ text _ (show text.length - 1 < text.length by omega)
      rw [Nat.sub_add_cancel (by omega)] at last
      have most := @paraOf_mono text _ _ low
      split at last <;> omega
    next =>
      refine Nat.le_succ_of_le (paraOf_mono ?_)
      unfold lastPos
      split <;> omega
  · exact ⟨bounds.starts.inside, le_refl _⟩

theorem start_iff {k t : Nat} (starts : StartsAt text k t) (below : t < text.length) :
    (s ≤ t ∧ t < e₁) ↔ Touches text pos n k := by
  rw [bounds₁.lt_end starts below, ← not_lt, starts.lt_iff bounds.starts, not_lt]
  refine and_congr_right fun _ => ?_
  rw [← starts.index]
  split
  next past =>
    rw [min_eq_right (by omega)]
    exact iff_of_true (paraOf_mono (by omega)) (paraOf_mono starts.inside)
  next within => rw [min_eq_left (by omega)]

theorem last_iff (starts : StartsAt text (paraOf text text.length) text.length)
    (others : paraOf text (firstPos text pos) ≠ paraOf text text.length) :
    s < e₁ ∧ ((s ≤ text.length - 1 ∧ text.length - 1 < e₁) ↔
      Touches text pos n (paraOf text text.length - 1)) := by
  have fewer : paraOf text (firstPos text pos) < paraOf text text.length :=
    Nat.lt_of_le_of_ne (paraOf_mono (min_le_right ..)) others
  have before := (bounds.starts.lt_iff starts).mpr fewer
  have inside : firstPos text pos < text.length := by
    refine Nat.lt_of_le_of_ne (min_le_right ..) fun same => ?_
    exact others (by rw [same])
  have lastByte := @paraOf_succ text _ (show text.length - 1 < text.length by omega)
  rw [Nat.sub_add_cancel (by omega), if_pos (starts.edge.resolve_left (by omega))] at lastByte
  obtain ⟨p₁, isP₁⟩ : ∃ p₁, paraOf text (if lastPos text pos n > text.length then
    text.length - 1 else lastPos text pos n) = p₁ := ⟨_, rfl⟩
  have first : paraOf text (firstPos text pos) ≤ p₁ := by
    rw [← isP₁]
    refine paraOf_mono ?_
    split
    · omega
    · unfold lastPos
      split <;> omega
  have touches : p₁ + 1 ≥ paraOf text text.length ↔ paraOf text text.length - 1 ≤
        paraOf text (min (lastPos text pos n) text.length) := by
    split at isP₁
    next past =>
      rw [min_eq_right (by omega)]
      omega
    next within =>
      rw [min_eq_left (by omega), isP₁]
      omega
  have atEnd : text.length - 1 < e₁ ↔ p₁ + 1 ≥ paraOf text text.length := by
    rcases bounds₁.ends with next | ⟨rfl, same⟩
    · rw [isP₁] at next
      have order := next.lt_iff starts
      omega
    · omega
  have some : s < e₁ := by
    rcases bounds₁.ends with next | ⟨rfl, _⟩
    · rw [isP₁] at next
      exact (bounds.starts.lt_iff next).mpr (by omega)
    · exact before
  refine ⟨some, ?_⟩
  unfold Touches
  omega

end Span

/-- A range formats exactly the paragraphs that intersect it when an empty last
paragraph comes to the format that it should. -/
theorem setParaFmt_formats_iff (shown : Shows d v) (room : Room d.pruns 2) (styles : List Style)
    {pos n : Nat} {pf : ParaFmt} (some : pf.mask ≠ 0) (noWrap : firstPos v.text pos + n ≤ word) :
    ∃ d', setParaFmt d pos n (Option.some pf) = Option.some (.ok, d') ∧
      ((∀ k s, StartsAt v.text k s → paraFmtResolved styles d' k =
          (Runs.payloadAt d.pruns s).map fun payload => paraFmtOf styles
            (if Touches v.text pos n k then overlayPara payload pf else payload)) ↔
        SetKeeps styles d v.text pos n pf) := by
  obtain ⟨d', s, e, s₁, e₁, sets, samePt, bounds, bounds₁, applies⟩ :=
    @setParaFmt_spec _ _ shown room pos n _ some
  refine ⟨d', sets, ?_⟩
  rw [paraEnd_eq noWrap] at bounds₁
  have spans := shown.layers.spansP
  have small := spans.small
  obtain ⟨ordered, high⟩ := span_ordered bounds bounds₁
  have length : (formats d.pruns.runs).length = v.text.length := (length_formats _).trans spans.sum
  rw [show (e₁ + word - s) % word = e₁ - s by
    rw [show e₁ + word - s = e₁ - s + word by omega, Nat.add_mod_right,
      Nat.mod_eq_of_lt (by omega)]] at applies
  obtain ⟨pruns', applies', spans'⟩ := spans.apply room s (e₁ - s) (overlayPara · pf) fun _ => id
  cases applies.symm.trans applies'
  have holds : Holds d'.pt v.text := samePt ▸ shown.text
  have reads (q : Nat) := @payloadAt_eq _ d.pruns (by rw [spans.sum]; exact small) q
  have reads' (q : Nat) := @payloadAt_eq _ d'.pruns (by rw [spans'.sum]; exact small) q
  -- The bytes of the span are formatted, whether there are any or none.
  have bytes : ∀ q < v.text.length, (formats d'.pruns.runs)[q]? =
      (formats d.pruns.runs)[q]?.map fun payload =>
        if s ≤ q ∧ q < e₁ then overlayPara payload pf else payload := by
    by_cases none : e₁ - s = 0
    · rw [none, Runs.apply, if_pos rfl, Option.some.injEq] at applies
      rw [← applies]
      intro q _
      simp only [show ¬ (s ≤ q ∧ q < e₁) by omega, if_false, Option.map_id']
    · have formatted := (apply_formats spans room (by omega) none applies).1
      rwa [Nat.add_sub_cancel' ordered] at formatted
  have inner {k t : Nat} (starts : StartsAt v.text k t) (below : t < v.text.length) :
      paraFmtResolved styles d' k = (Runs.payloadAt d.pruns t).map fun payload =>
        paraFmtOf styles (if Touches v.text pos n k then overlayPara payload pf else payload) := by
    rw [paraFmtResolved_eq holds starts, formatAt, reads', bytes t below, reads]
    simp only [start_iff bounds bounds₁ starts below]
    rw [List.getElem?_eq_getElem (by omega)]
    rfl
  have outer (starts : StartsAt v.text (paraOf v.text v.text.length) v.text.length) :
      paraFmtResolved styles d' (paraOf v.text v.text.length) =
        if paraOf v.text (firstPos v.text pos) = paraOf v.text v.text.length then
          formatAt styles d v.text.length
        else (Runs.payloadAt d.pruns (v.text.length - 1)).map fun payload =>
          paraFmtOf styles (if Touches v.text pos n (paraOf v.text v.text.length - 1)
            then overlayPara payload pf else payload) := by
    rw [paraFmtResolved_eq holds starts]
    split
    next only =>
      have atEnd := (only ▸ bounds.starts).unique starts
      rw [show e₁ - s = 0 by omega, Runs.apply, if_pos rfl, Option.some.injEq] at applies
      rw [formatAt, ← applies]
      rfl
    next others =>
      obtain ⟨more, touched⟩ := last_iff bounds bounds₁ starts others
      have last := (apply_formats spans room (by omega) (by omega) applies).2
      have length' : (formats d'.pruns.runs).length = v.text.length :=
        (length_formats _).trans spans'.sum
      rw [formatAt, reads', List.getElem?_eq_none (by omega), none_or, last,
        List.getLast?_eq_getElem?, length', bytes _ (by omega), reads,
        List.getElem?_eq_getElem (by omega)]
      simp only [touched]
      rfl
  constructor
  · intro formatted starts
    rw [← formatted _ _ starts]
    exact outer starts
  intro keeps k t starts
  by_cases below : t < v.text.length
  · exact inner starts below
  have atEnd : t = v.text.length := by
    have := starts.inside
    omega
  subst atEnd
  obtain rfl := starts.index
  rw [outer starts]
  exact (keeps starts).symm

theorem overlayPara_nothing (payload : ParaFmt) {pf : ParaFmt} (nothing : pf.mask = 0) :
    overlayPara payload pf = payload := by
  unfold overlayPara
  simp only [nothing, UInt16.zero_and, ne_eq, not_true_eq_false, if_false]

/-- Inserting text without a line feed changes the format of no paragraph exactly
when it goes in where no paragraph starts, or where the run to its left has the
format of the paragraph.  A range formats exactly the paragraphs that intersect it
when the last paragraph has bytes, or the last run comes to the format that the
paragraph should have. -/
theorem paragraph_formats (shown : Shows d v) (styles : List Style) : (∀ pos data, lineFeed ∉ data →
      (pos ≤ v.text.length → data.length ≠ 0 → InsertFits d.pt data.length) →
      ∃ result d', Document.insert d pos data = some (result, d') ∧
        ((∀ k, paraFmtResolved styles d' k = paraFmtResolved styles d k) ↔
          (pos ≤ v.text.length → data.length ≠ 0 → InsertKeeps styles d v.text pos))) ∧
    ∀ pos n pf, Room d.pruns 2 → firstPos v.text pos + n ≤ word → ∃ d', setParaFmt d pos n
      (some pf) = some (.ok, d') ∧ ((∀ k s, StartsAt v.text k s → paraFmtResolved styles d' k =
            (Runs.payloadAt d.pruns s).map fun payload => paraFmtOf styles
              (if Touches v.text pos n k then overlayPara payload pf else payload)) ↔
          (pf.mask ≠ 0 → SetKeeps styles d v.text pos n pf)) := by
  have total := shown.text.total
  refine ⟨fun pos data plain fits => ?_, fun pos n pf room noWrap => ?_⟩
  · by_cases past : pos > v.text.length
    · refine ⟨.range, d, ?_, iff_of_true (fun _ => rfl) fun inside => ?_⟩
      · unfold Document.insert
        rw [if_pos (by omega)]
      · omega
    by_cases nothing : data.length = 0
    · refine ⟨.ok, d, ?_, iff_of_true (fun _ => rfl) fun _ some => ?_⟩
      · unfold Document.insert
        rw [if_neg (by omega), if_pos nothing]
      · exact absurd nothing some
    have inside : pos ≤ v.text.length := Nat.le_of_not_gt past
    obtain ⟨d', inserts, keeps⟩ :=
      insert_formats_iff shown styles inside plain nothing (fits inside nothing)
    refine ⟨.ok, d', inserts, keeps.trans ?_⟩
    exact ⟨fun keeps _ _ => keeps, fun keeps => keeps inside nothing⟩
  · by_cases nothing : pf.mask = 0
    · refine ⟨d, if_pos nothing, iff_of_true (fun k s starts => ?_) (absurd nothing)⟩
      rw [paraFmtResolved_eq shown.text starts]
      simp only [overlayPara_nothing _ nothing, ite_self]
      rfl
    · obtain ⟨d', sets, keeps⟩ := setParaFmt_formats_iff shown room styles nothing noWrap
      refine ⟨d', sets, keeps.trans ?_⟩
      exact ⟨fun keeps _ => keeps, fun keeps => keeps nothing⟩

/-- A text goes into a document. -/
def typed (pos : Nat) (text : List UInt8) (d : DfDoc) : Option DfDoc :=
  (Document.insert d pos text).map (·.2)

/-- `DD_PF_ALIGN`, centred. -/
def centred : ParaFmt :=
  { (Payload.zero : ParaFmt) with mask := pfAlign, align := 1 }

theorem typed_shows : ∃ d v, typed 0 [97, 10, 98] created = some d ∧ Shows d v ∧
    v.text = [97, 10, 98] ∧ InsertFits d.pt 1 ∧ Room d.pruns 2 ∧ Room d.sruns 1 ∧
      d.sections.length < d.sectionsCap ∧ Runs.find d.sruns 1 = (0, 1) ∧ Room d.cruns 2 := by
  have fresh : Fresh created := by
    obtain ⟨d, creates, fresh⟩ := create_fresh
    have same : created = d := get_of_eq_some _ creates
    exact same ▸ fresh
  have seen : (typed 0 [97, 10, 98] created).map (fun d => ((view d).map (·.text),
      decide (InsertFits d.pt 1 ∧ Room d.pruns 2 ∧ Room d.sruns 1 ∧
        d.sections.length < d.sectionsCap ∧ Runs.find d.sruns 1 = (0, 1) ∧ Room d.cruns 2))) =
        some (some [97, 10, 98], true) := by
    decide +kernel
  obtain ⟨v₀, tracks⟩ := fresh.tracks
  have guard : Guard created (.insert 0 ⟨[97, 10, 98], by decide⟩) := by decide +kernel
  obtain ⟨unrecorded, _⟩ | ⟨_, d, v, edits, tracked⟩ := Tracks.insert tracks guard
  · exact absurd unrecorded (by decide +kernel)
  have types : typed 0 [97, 10, 98] created = some d := congrArg (Option.map Prod.snd) edits
  rw [types, map_some, tracked.now.view] at seen
  simp only [map_some, Option.some.injEq, Prod.mk.injEq, decide_eq_true_eq] at seen
  exact ⟨d, v, types, tracked.now, seen⟩

/-- Two lines: a byte goes in behind the first one, and the first is centred. -/
theorem paragraph_formats_typed : ∃ d v, typed 0 [97, 10, 98] created = some d ∧ Shows d v ∧
    v.text = [97, 10, 98] ∧ (∃ result d', Document.insert d 1 [120] = some (result, d') ∧
        ∀ k, paraFmtResolved [] d' k = paraFmtResolved [] d k) ∧
      ∃ d', setParaFmt d 0 1 (some centred) = some (.ok, d') ∧ ∀ k s, StartsAt v.text k s →
        paraFmtResolved [] d' k = (Runs.payloadAt d.pruns s).map fun payload =>
          paraFmtOf [] (if Touches v.text 0 1 k then overlayPara payload centred else payload) := by
  obtain ⟨d, v, types, shown, text, fits, room, _⟩ := typed_shows
  obtain ⟨inserted, formatted⟩ := paragraph_formats shown []
  obtain ⟨result, d₁, inserts, keeps⟩ := inserted 1 [120] (by decide) fun _ _ => fits
  obtain ⟨d₂, sets, formats⟩ := formatted 0 1 centred room (by rw [text]; decide)
  refine ⟨d, v, types, shown, text, ⟨result, d₁, inserts, keeps.mpr ?_⟩, d₂, sets, formats.mpr ?_⟩
  · intro _ _ k starts
    have edge := starts.edge
    rw [text] at edge
    exact absurd edge (by decide)
  · intro _ starts
    have edge := starts.edge
    rw [text] at edge
    exact absurd edge (by decide)

/-- How the first paragraphs of a document are aligned. -/
def alignments (d : DfDoc) : List (Option UInt8) :=
  (List.range 2).map fun k => (paraFmtResolved [] d k).map (·.align)

/-- A range of a document is centred. -/
def centre (pos n : Nat) (d : DfDoc) : Option DfDoc :=
  (setParaFmt d pos n (some centred)).map (·.2)

/-- A byte that goes in where the second line starts takes the format of the first
one; an empty last line is not centred on its own, and is centred with the line
before it. -/
theorem paragraph_formats_fail : (typed 0 [97, 10, 98] created >>= centre 0 1).map alignments = some
    [some 1, some 0] ∧ (typed 0 [97, 10, 98] created >>= centre 0 1 >>= typed 2
    [120]).map alignments = some [some 1, some 1] ∧ (typed 0 [97, 10] created).map alignments = some
    [some 0, some 0] ∧ (typed 0 [97, 10] created >>= centre 2 0).map alignments = some [some 0,
    some 0] ∧ (typed 0 [97, 10] created >>= centre 0 1).map alignments = some [some 1, some 1] := by
  refine ⟨?_, ?_, ?_, ?_, ?_⟩ <;> decide +kernel

end MainDob.Proofs.ParagraphFormats
