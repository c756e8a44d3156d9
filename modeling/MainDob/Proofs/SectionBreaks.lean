/-
Purpose: Section breaks of a document, byte by byte: which section and which page
  geometry each byte has after a break goes in or out.
Main exports: pageAt, find_at, section_breaks
-/
import MainDob.Proofs.ParagraphFormats

namespace MainDob.Proofs.Sections

open Doc Doc.Document
open Doc.PieceTable (word)
open Doc.Runs (Run Runlist cut applyRuns)
open Document RunLists
open List

/-- `df_doc_section_page_at`. -/
def pageAt (d : DfDoc) (pos : Nat) : Option PageSetup :=
  (Runs.payloadAt d.sruns pos).bind (d.sections[·]?)

section Lists

variable {α : Type} {rl : Runlist α} {runs : List (Run α)} {i pos within : Nat} {run : Run α}

theorem find_at (small : sum rl.runs < word) (there : rl.runs[i]? = some run)
    (inside : within < run.len) (place : pos = sum (rl.runs.take i) + within) :
    Runs.find rl pos = (i, within) := by
  have upTo := sum_take_succ there
  rcases find_cases small pos with ⟨other, isOther, inside', place'⟩ | ⟨_, past⟩
  · have upTo' := sum_take_succ isOther
    rcases Nat.lt_trichotomy (Runs.find rl pos).1 i with before | same | after
    · have := @sum_take_mono _ rl.runs _ _ (show (Runs.find rl pos).1 + 1 ≤ i by omega)
      omega
    · refine Prod.ext same ?_
      rw [same] at place'
      omega
    · have := @sum_take_mono _ rl.runs _ _ (show i + 1 ≤ (Runs.find rl pos).1 by omega)
      omega
  · have := sum_take_drop rl.runs (i + 1)
    omega

theorem modify_eq_applyRuns (i : Nat) (payload : α) :
    (runs.modify i fun run => { run with payload := payload }) =
      applyRuns i (i + 1) (fun _ => payload) runs := by
  refine ext_getElem (by simp [applyRuns]) fun r _ _ => ?_
  simp only [applyRuns, getElem_modify, getElem_mapIdx]
  by_cases here : i = r
  · rw [if_pos here, if_pos (by omega)]
  · rw [if_neg here, if_neg (by omega)]

theorem set_eq_applyRuns (there : runs[i]? = some run) (payload : α) :
    runs.set i ⟨run.len, payload⟩ = applyRuns i (i + 1) (fun _ => payload) runs := by
  rw [← modify_eq_applyRuns]
  refine ext_getElem (by simp) fun r _ _ => ?_
  rw [getElem_set, getElem_modify]
  obtain ⟨_, rfl⟩ := List.getElem?_eq_some_iff.mp there
  split
  case isTrue same => subst same; rfl
  case isFalse => rfl

theorem formats_relabel (there : runs[i]? = some run) (payload : α) {q : Nat}
    (inside : q < sum runs) :
    (formats (applyRuns i (i + 1) (fun _ => payload) runs))[q]? = if sum (runs.take i) ≤ q ∧
      q < sum (runs.take i) + run.len then some payload else (formats runs)[q]? := by
  obtain ⟨old, isOld⟩ : ∃ old, (formats runs)[q]? = some old :=
    ⟨_, List.getElem?_eq_getElem (by rw [length_formats]; exact inside)⟩
  rw [applyRuns_formats _ _ _ inside, sum_take_succ there, isOld, Option.map_some]
  split <;> rfl

end Lists

variable {d : DfDoc} {v : View} {pos : Nat}

section

variable (shown : Shows d v)
include shown

theorem pageAt_eq {q : Nat} (inside : q < v.text.length) :
    ∃ si, (formats d.sruns.runs)[q]? = some si ∧
    si < d.sections.length ∧ pageAt d q = d.sections[si]? := by
  have spans := shown.layers.spansS
  have total := spans.sum
  obtain ⟨i, run, there, low, high⟩ := @run_at _ d.sruns.runs q (by omega)
  have reads := formats_at there low high
  refine ⟨run.payload, reads, spans.each run (mem_of_getElem? there), ?_⟩
  unfold pageAt
  rw [payloadAt_eq (by rw [total]; exact spans.small), reads]
  rfl

theorem insertBreak_spec (apart : (Runs.find d.sruns pos).2 ≠ 0) (room : Room d.sruns 1)
    (fits : d.sections.length < d.sectionsCap ∨ d.sectionsCap * 2 * pageSetupSize < word) :
    ∃ run page d₁ v₁,
    d.sruns.runs[(Runs.find d.sruns pos).1]? = some run ∧ (Runs.find d.sruns pos).2 < run.len ∧
      pos = sum (d.sruns.runs.take (Runs.find d.sruns pos).1) + (Runs.find d.sruns pos).2 ∧
      d.sections[run.payload]? = some page ∧ insertSectionBreak d pos = some (.ok, d₁) ∧
      Shows d₁ v₁ ∧ v₁.text.length = v.text.length ∧ d₁.sections = d.sections ++
      [page] ∧ d₁.sruns.runs = (cut d.sruns.runs (Runs.find d.sruns pos).1
        (Runs.find d.sruns pos).2).set ((Runs.find d.sruns pos).1 + 1)
          ⟨run.len - (Runs.find d.sruns pos).2, d.sections.length⟩ := by
  have spans := shown.layers.spansS
  rcases find_cases (by rw [spans.sum]; exact spans.small) pos with
    ⟨run, there, inside, place⟩ | ⟨past, _⟩
  · obtain ⟨us, snaps, _⟩ := shown.snapshot
    have begun : Shows { d with
        ustack := (us :: d.ustack).take undoMax
        rstack := [] } v := { shown with }
    obtain ⟨idx, sruns, right, page, cap, v₁, splits, isRight, isPage, adds, shown₁⟩ :=
      begun.breakSection apart room fits
    obtain ⟨rfl, runs⟩ := splitAt_runs apart splits
    have second := (getElem?_cut (Runs.find d.sruns pos).2 there).2
    rw [← runs, isRight, Option.some.injEq] at second
    subst second
    have reaches := spans.sum
    have upTo := sum_take_drop d.sruns.runs ((Runs.find d.sruns pos).1 + 1)
    rw [sum_take_succ there] at upTo
    have total := shown.text.total
    refine ⟨run, page, _, v₁, there, inside, place, isPage, ?_, shown₁, ?_, rfl, ?_⟩
    · unfold insertSectionBreak
      rw [if_neg (by omega), if_neg apart]
      simp [beginEdit, snaps, splits, isRight, isPage, adds]
    · rw [← shown₁.text.total]
      exact total
    · rw [← runs]
  · rw [past] at apart
    exact absurd rfl apart

/-- `df_doc_remove_section_break` in front of a byte: the bytes of a run that
begins there, and is not the first one, join the run before it. -/
theorem removeBreak_spec (inside : pos < v.text.length) :
    ∃ run d₂, d.sruns.runs[(Runs.find d.sruns pos).1]? = some run ∧ removeSectionBreak d pos = some
      (.ok, d₂) ∧ d₂.sections = d.sections ∧ (∃ v₂, Shows d₂ v₂ ∧ v₂.text.length = v.text.length) ∧
      (((Runs.find d.sruns pos).2 ≠ 0 ∨ (Runs.find d.sruns pos).1 = 0) ∧ d₂ = d ∨
        (Runs.find d.sruns pos).2 = 0 ∧ (Runs.find d.sruns pos).1 ≠ 0 ∧
        ∃ left, d.sruns.runs[(Runs.find d.sruns pos).1 - 1]? = some left ∧
          ∀ q < v.text.length, (formats d₂.sruns.runs)[q]? = if pos ≤ q ∧
            q < pos + run.len then some left.payload else (formats d.sruns.runs)[q]?) := by
  have spans := shown.layers.spansS
  have total := spans.sum
  rcases find_cases (by rw [total]; exact spans.small) pos with
    ⟨run, there, within, place⟩ | ⟨_, beyond⟩
  · by_cases nothing : (Runs.find d.sruns pos).2 ≠ 0 ∨ (Runs.find d.sruns pos).1 = 0
    · exact ⟨run, d, there, if_pos nothing, rfl, ⟨v, shown, rfl⟩, .inl ⟨nothing, rfl⟩⟩
    obtain ⟨boundary, later⟩ : (Runs.find d.sruns pos).2 = 0 ∧
        (Runs.find d.sruns pos).1 ≠ 0 := by omega
    obtain ⟨us, snaps, _⟩ := shown.snapshot
    have begun : Shows { d with
        ustack := (us :: d.ustack).take undoMax
        rstack := [] } v := { shown with }
    have bound := (List.getElem?_eq_some_iff.mp there).1
    have stored : (Runs.find d.sruns pos).1 < d.sruns.cap := lt_of_lt_of_le bound spans.stored
    obtain ⟨left, sruns, v₂, isLeft, writes, shown₂⟩ := begun.joinSections later stored
    have written : sruns.runs = applyRuns (Runs.find d.sruns pos).1
        ((Runs.find d.sruns pos).1 + 1) (fun _ => left.payload) d.sruns.runs := by
      rw [← modify_eq_applyRuns]
      unfold writePayload at writes
      rw [if_pos stored] at writes
      cases writes
      rfl
    refine ⟨run, { d with
      ustack := (us :: d.ustack).take undoMax
      rstack := []
      sruns := Runs.merge sruns }, there, ?_, rfl, ⟨v₂, shown₂, ?_⟩,
      .inr ⟨boundary, later, left, isLeft, fun q low => ?_⟩⟩
    · unfold removeSectionBreak
      simp only [if_neg nothing]
      simp [beginEdit, snaps, isLeft, writes]
    · rw [← shown₂.text.total]
      exact shown.text.total
    have sum' : sum sruns.runs = sum d.sruns.runs := by
      rw [written, RunLists.sum, RunLists.sum, map_len_applyRuns]
    have small := spans.small
    rw [boundary, add_zero] at place
    rw [show (Runs.merge sruns).runs = Runs.merged sruns.runs from rfl,
      (merged_formats (by omega) (by omega)).1, written,
      formats_relabel there _ (by omega), ← place]
  · omega

/-- The document after `df_doc_remove_section_break` in front of a byte, geometry
by geometry: inside a section, and at the start of the first one, it is the same
document; at a boundary only the bytes of the run that begins there get another
geometry, that of the section before it. -/
theorem removeBreak_pages (inside : pos < v.text.length) :
    ∃ run d₂, d.sruns.runs[(Runs.find d.sruns pos).1]? = some run ∧ removeSectionBreak d pos = some
      (.ok, d₂) ∧ (((Runs.find d.sruns pos).2 ≠ 0 ∨ (Runs.find d.sruns pos).1 = 0) ∧ d₂ = d ∨
        (Runs.find d.sruns pos).2 = 0 ∧ (Runs.find d.sruns pos).1 ≠ 0 ∧
        ∃ left, d.sruns.runs[(Runs.find d.sruns pos).1 - 1]? = some left ∧
          ∀ q < v.text.length, pageAt d₂ q =
            if pos ≤ q ∧ q < pos + run.len then d.sections[left.payload]? else pageAt d q) := by
  obtain ⟨run, d₂, there, removes, sections, ⟨v₂, shown₂, length₂⟩, outcome⟩ :=
    removeBreak_spec shown inside
  refine ⟨run, d₂, there, removes, outcome.imp_right ?_⟩
  rintro ⟨boundary, later, left, isLeft, joined⟩
  refine ⟨boundary, later, left, isLeft, fun q low => ?_⟩
  obtain ⟨si, reads, _, isAt⟩ := pageAt_eq shown low
  obtain ⟨si₂, reads₂, _, isAt₂⟩ := pageAt_eq shown₂ (by rw [length₂]; exact low)
  rw [joined q low] at reads₂
  rw [isAt₂, sections]
  split at reads₂
  next member =>
    cases reads₂
    rw [if_pos member]
  next outside =>
    cases reads.symm.trans reads₂
    rw [if_neg outside, isAt]

/-- A break that goes in changes the geometry of no byte.  In front of a byte a
break goes out with only existing runs addressed; inside a section and at the start
of the first one nothing changes, and at a boundary only the bytes of the run that
begins there change their geometry, to that of the section before them.  A break
that goes in inside a section, and out again, leaves every byte in the section it
was in. -/
theorem section_breaks (room : Room d.sruns 1)
    (fits : d.sections.length < d.sectionsCap ∨ d.sectionsCap * 2 * pageSetupSize < word)
    (pos : Nat) : (∃ result d₁, insertSectionBreak d pos = some (result, d₁) ∧
      ∀ q < v.text.length, pageAt d₁ q = pageAt d q) ∧
    (pos < v.text.length → (∃ run d₂, d.sruns.runs[(Runs.find d.sruns pos).1]? = some run ∧
        removeSectionBreak d pos = some (.ok, d₂) ∧
        (((Runs.find d.sruns pos).2 ≠ 0 ∨ (Runs.find d.sruns pos).1 = 0) ∧ d₂ = d ∨
          (Runs.find d.sruns pos).2 = 0 ∧ (Runs.find d.sruns pos).1 ≠ 0 ∧
          ∃ left, d.sruns.runs[(Runs.find d.sruns pos).1 - 1]? = some left ∧
            ∀ q < v.text.length, pageAt d₂ q =
              if pos ≤ q ∧ q < pos + run.len then d.sections[left.payload]?
              else pageAt d q)) ∧ ((Runs.find d.sruns pos).2 ≠ 0 ∨ (Runs.find d.sruns pos).1 = 0 →
        ∃ d₁ d₂, insertSectionBreak d pos = some (.ok, d₁) ∧
          removeSectionBreak d₁ pos = some (.ok, d₂) ∧
          formats d₂.sruns.runs = formats d.sruns.runs ∧
          ∀ q < v.text.length, pageAt d₂ q = pageAt d q)) := by
  refine (and_congr_right fun _ => imp_congr_right fun inside =>
    and_iff_right (removeBreak_pages shown inside)).mpr ?_
  by_cases apart : (Runs.find d.sruns pos).2 = 0
  · constructor
    · by_cases past : pos > d.pt.total
      · exact ⟨_, d, if_pos past, fun _ _ => rfl⟩
      refine ⟨.ok, d, ?_, fun _ _ => rfl⟩
      unfold insertSectionBreak
      rw [if_neg past, if_pos apart]
    · intro inside first
      have total := shown.text.total
      have first := first.resolve_left (absurd apart)
      refine ⟨d, d, ?_, if_pos (.inr first), rfl, fun _ _ => rfl⟩
      unfold insertSectionBreak
      rw [if_neg (by omega), if_pos apart]
  obtain ⟨run, page, d₁, v₁, there, within, place, isPage, inserts, shown₁, length₁,
    sections, runs⟩ := insertBreak_spec shown apart room fits
  generalize (Runs.find d.sruns pos).1 = i at *
  generalize (Runs.find d.sruns pos).2 = w at *
  have spans := shown.layers.spansS
  have total := spans.sum
  obtain ⟨front, second⟩ := getElem?_cut w there
  obtain ⟨bytes, start, _⟩ := cut_formats there within
  have halves : ∀ q < v.text.length, (formats d₁.sruns.runs)[q]? =
      if pos ≤ q ∧ q < pos + (run.len - w) then some d.sections.length
      else (formats d.sruns.runs)[q]? := by
    intro q low
    rw [runs, set_eq_applyRuns second,
      formats_relabel second _ (by rw [sum_cut there within]; omega), start, bytes, ← place]
  have old : ∀ q, pos ≤ q ∧ q < pos + (run.len - w) →
      (formats d.sruns.runs)[q]? = some run.payload :=
    fun q ⟨low, high⟩ => formats_at there (by omega) (by omega)
  refine ⟨⟨.ok, d₁, inserts, fun q low => ?_⟩, fun inside _ => ?_⟩
  · obtain ⟨si, reads, inTable, isAt⟩ := pageAt_eq shown low
    obtain ⟨si₁, reads₁, _, isAt₁⟩ := pageAt_eq shown₁ (by rw [length₁]; exact low)
    rw [halves q low] at reads₁
    rw [isAt, isAt₁, sections]
    split at reads₁
    next member =>
      cases (old q member).symm.trans reads
      cases reads₁
      rw [isPage, List.getElem?_concat_length]
    next =>
      cases reads.symm.trans reads₁
      rw [List.getElem?_append_left inTable]
  have isSecond : d₁.sruns.runs[i + 1]? = some ⟨run.len - w, d.sections.length⟩ := by
    rw [runs]
    exact List.getElem?_set_self (List.getElem?_eq_some_iff.mp second).1
  have isFirst : d₁.sruns.runs[i]? = some ⟨w, run.payload⟩ := by
    rw [runs, List.getElem?_set_ne (by omega)]
    exact front
  have spans₁ := shown₁.layers.spansS
  have found : Runs.find d₁.sruns pos = (i + 1, 0) := by
    refine find_at (by rw [spans₁.sum]; exact spans₁.small) isSecond (Nat.sub_pos_of_lt within) ?_
    rw [runs, take_set_of_le (le_refl _), start, add_zero]
    exact place
  obtain ⟨run₁, d₂, there₁, removes, sections₂, ⟨v₂, shown₂, length₂⟩, outcome⟩ :=
    removeBreak_spec shown₁ (by rw [length₁]; exact inside)
  rw [found] at there₁ outcome
  cases isSecond.symm.trans there₁
  rcases outcome with ⟨no, _⟩ | ⟨_, _, left, isLeft, joined⟩
  · simp at no
  cases isFirst.symm.trans isLeft
  have whole : ∀ q < v.text.length, (formats d₂.sruns.runs)[q]? = (formats d.sruns.runs)[q]? := by
    intro q low
    rw [joined q (by rw [length₁]; exact low), halves q low]
    split
    next member => exact (old q member).symm
    next => rfl
  refine ⟨d₁, d₂, inserts, removes, ext_getElem? fun q => ?_, fun q low => ?_⟩
  · by_cases low : q < v.text.length
    · exact whole q low
    have total₂ := shown₂.layers.spansS.sum
    rw [List.getElem?_eq_none (by rw [length_formats]; omega),
      List.getElem?_eq_none (by rw [length_formats]; omega)]
  · obtain ⟨si, reads, inTable, isAt⟩ := pageAt_eq shown low
    obtain ⟨si₂, reads₂, _, isAt₂⟩ := pageAt_eq shown₂ (by rw [length₂, length₁]; exact low)
    rw [whole q low, reads] at reads₂
    cases reads₂
    rw [isAt, isAt₂, sections₂, sections, List.getElem?_append_left inTable]

end

open ParagraphFormats in
/-- A break goes in behind the first of three bytes, and out again. -/
theorem section_breaks_typed :
    ∃ d d₁ d₂, typed 0 [97, 10, 98] created = some d ∧ insertSectionBreak d 1 = some (.ok, d₁) ∧
    removeSectionBreak d₁ 1 = some (.ok, d₂) ∧ formats d₂.sruns.runs = formats d.sruns.runs := by
  obtain ⟨d, v, types, shown, text, _, _, room, fits, found, _⟩ := typed_shows
  obtain ⟨d₁, d₂, inserts, removes, restored, _⟩ :=
    ((section_breaks shown room (.inl fits) 1).2 (by rw [text]; decide)).2 (by rw [found]; decide)
  exact ⟨d, d₁, d₂, types, inserts, removes, restored⟩

/-- A break goes into a document. -/
def broken (pos : Nat) (d : DfDoc) : Option DfDoc := (insertSectionBreak d pos).map (·.2)

/-- A break comes out of a document. -/
def joined (pos : Nat) (d : DfDoc) : Option DfDoc := (removeSectionBreak d pos).map (·.2)

open ParagraphFormats in
/-- Where there is a break already, inserting one does nothing, and removing it takes
away the one that was there; at the end of the text the position is found one past
the last run, and that is no reason to leave it. -/
theorem section_breaks_fail :
    (typed 0 [97, 10, 98] created >>= broken 1).map (formats ·.sruns.runs) = some [0, 1, 1] ∧
    (typed 0 [97, 10, 98] created >>= broken 1 >>= broken 1 >>= joined 1).map
      (formats ·.sruns.runs) = some [0, 0, 0] ∧ (typed 0 [97, 10, 98] created).map (fun d =>
      (Runs.find d.sruns 3, d.sruns.runs.length)) = some ((1, 0), 1) := by
  refine ⟨?_, ?_, ?_⟩ <;> decide +kernel

end MainDob.Proofs.Sections
