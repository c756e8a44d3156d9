/-
Purpose: What a document shows, and that each edit keeps the run lists in step
  with the text and the section indices inside the section table.
Main exports: View, view, Shows
-/
import MainDob.Doc.Document
import MainDob.Proofs.RunLists

namespace MainDob.Proofs.Document

open Doc Doc.Document
open Doc.PieceTable (word)
open Doc.Runs (Run Runlist)
open PieceTable (Holds Kept SameOriginal InsertFits DeleteFits)
open RunLists
open List Option

/-! ## What a document shows -/

/-- The text, the runs of the three lists and the section table. -/
structure View where
  text : List UInt8
  cruns : List (Run CharFmt)
  pruns : List (Run ParaFmt)
  sruns : List (Run Nat)
  sections : List PageSetup
deriving DecidableEq

/-- What can be read of a document; `none` is a read outside a buffer. -/
def view (d : DfDoc) : Option View := do
  let text ← PieceTable.getText d.pt 0 d.pt.total d.pt.total
  return ⟨text, d.cruns.runs, d.pruns.runs, d.sruns.runs, d.sections⟩

/-- Run lists and sections that are in step with the text of a view and are what
it shows. -/
structure Layers (cruns : Runlist CharFmt) (pruns : Runlist ParaFmt)
    (sruns : Runlist Nat) (sections : List PageSetup) (v : View) : Prop where
  spansC : Spans (fun _ => True) cruns v.text.length
  spansP : Spans (fun _ => True) pruns v.text.length
  spansS : Spans (· < sections.length) sruns v.text.length
  showsC : cruns.runs = v.cruns
  showsP : pruns.runs = v.pruns
  showsS : sruns.runs = v.sruns
  showsSections : sections = v.sections
  filled : 0 < sections.length
  narrow : sections.length * pageSetupSize < word

/-- A document in order, which shows `v`. -/
structure Shows (d : DfDoc) (v : View) : Prop where
  text : Holds d.pt v.text
  layers : Layers d.cruns d.pruns d.sruns d.sections v
  stored : d.sections.length ≤ d.sectionsCap
  narrow : d.sectionsCap * pageSetupSize < word

/-- A state on one of the stacks from which `v` can be brought back. -/
structure Saved (add orig : List UInt8) (us : UndoState) (v : View) : Prop where
  text : Kept add us.pieces v.text
  orig : us.pieces.orig = orig
  layers : Layers us.cruns us.pruns us.sruns us.sections v

theorem Shows.view {d : DfDoc} {v : View} (shown : Shows d v) : view d = some v := by
  have layers := shown.layers
  unfold Document.view
  rw [shown.text.getText, shown.text.total, Nat.min_self, drop_zero,
    take_length, layers.showsC, layers.showsP, layers.showsS, layers.showsSections]
  rfl

theorem Saved.grow {add orig : List UInt8} {us : UndoState} {v : View} (saved : Saved add orig us v)
    (more : List UInt8) : Saved (add ++ more) orig us v :=
  ⟨saved.text.grow more, saved.orig, saved.layers⟩

/-! ## Snapshots -/

theorem Layers.copy {cruns : Runlist CharFmt} {pruns : Runlist ParaFmt} {sruns : Runlist Nat}
    {sections : List PageSetup} {v : View} (layers : Layers cruns pruns sruns sections v) :
    ∃ cruns' pruns' sruns', Runs.copy cruns = some cruns' ∧ Runs.copy pruns = some pruns' ∧
      Runs.copy sruns = some sruns' ∧ Layers cruns' pruns' sruns' sections v := by
  obtain ⟨cruns', copiesC, sameC, spansC⟩ := layers.spansC.copy
  obtain ⟨pruns', copiesP, sameP, spansP⟩ := layers.spansP.copy
  obtain ⟨sruns', copiesS, sameS, spansS⟩ := layers.spansS.copy
  exact ⟨cruns', pruns', sruns', copiesC, copiesP, copiesS, { layers with
      spansC := spansC
      spansP := spansP
      spansS := spansS
      showsC := sameC.trans layers.showsC
      showsP := sameP.trans layers.showsP
      showsS := sameS.trans layers.showsS }⟩

theorem Shows.snapshot {d : DfDoc} {v : View} (shown : Shows d v) :
    ∃ us, snapshot d = some us ∧ Saved d.pt.add d.pt.orig us v := by
  obtain ⟨cruns, pruns, sruns, copiesC, copiesP, copiesS, layers⟩ := shown.layers.copy
  refine ⟨⟨⟨d.pt.pc, d.pt.total, d.pt.orig⟩, cruns, pruns, sruns, d.sections⟩,
    ?_, shown.text.kept, rfl, layers⟩
  simp [Doc.Document.snapshot, PieceTable.snapshot, shown.text.entries, copiesC, copiesP, copiesS]

theorem Shows.applyState {d : DfDoc} {now v : View} {us : UndoState}
    (shown : Shows d now) (saved : Saved d.pt.add d.pt.orig us v) :
    ∃ d', applyState d us = some d' ∧ Shows d' v ∧ d'.pt.add = d.pt.add ∧
      d'.pt.orig = d.pt.orig ∧ d'.ustack = d.ustack ∧ d'.rstack = d.rstack := by
  obtain ⟨cruns, pruns, sruns, copiesC, copiesP, copiesS, layers⟩ := saved.layers.copy
  have same : SameOriginal d.pt us.pieces := fun piece _ _ => by rw [saved.orig]
  have text := @Holds.restore _ _ _ _ shown.text saved.text same true (.inl rfl)
  refine ⟨{ d with
    pt := PieceTable.restore d.pt us.pieces true
    cruns := cruns
    pruns := pruns
    sruns := sruns
    sections := us.sections
    sectionsCap := us.sections.length }, ?_,
    ⟨text, layers, le_refl _, layers.narrow⟩, rfl, rfl, rfl, rfl⟩
  simp [Doc.Document.applyState, copiesC, copiesP, copiesS]

/-! ## One edit -/

/-- What an edit leaves alone: the stacks, the original and the bytes that are
in the append buffer. -/
structure Framed (d d' : DfDoc) : Prop where
  ustack : d'.ustack = d.ustack
  rstack : d'.rstack = d.rstack
  add : ∃ more, d'.pt.add = d.pt.add ++ more
  orig : d'.pt.orig = d.pt.orig

theorem Framed.refl_of {d d' : DfDoc} (ustack : d'.ustack = d.ustack)
    (rstack : d'.rstack = d.rstack) (pt : d'.pt = d.pt) : Framed d d' :=
  ⟨ustack, rstack, ⟨[], by rw [pt, append_nil]⟩, by rw [pt]⟩

theorem Framed.trans {d d' d'' : DfDoc} (first : Framed d d')
    (second : Framed d' d'') : Framed d d'' := by
  obtain ⟨more, isMore⟩ := first.add
  obtain ⟨further, isFurther⟩ := second.add
  exact ⟨second.ustack.trans first.ustack, second.rstack.trans first.rstack,
    ⟨more ++ further, by rw [isFurther, isMore, append_assoc]⟩, second.orig.trans first.orig⟩

/-- What the calls of one edit need, so that no sum wraps and no vector is
outgrown. -/
def Guard (d : DfDoc) : Edit → Prop
  | .insert pos utf8 => d.pt.total < pos.toNat ∨ utf8.val.length = 0 ∨
      InsertFits d.pt utf8.val.length
  | .insertFmt pos utf8 _ => d.pt.total < pos.toNat ∨ utf8.val.length = 0 ∨
      InsertFits d.pt utf8.val.length ∧ Room d.cruns 2
  | .delete pos n => d.pt.total < pos.toNat ∨ n.toNat = 0 ∨
      DeleteFits d.pt pos.toNat n.toNat
  | .applyCharFmt _ _ _ => Room d.cruns 2
  | .setParaFmt _ _ _ | .setParaStyle _ _ _ => Room d.pruns 2
  | .setSectionPageAt _ _ => True
  | .insertSectionBreak _ => Room d.sruns 1 ∧
      (d.sections.length < d.sectionsCap ∨ d.sectionsCap * 2 * pageSetupSize < word)
  | .removeSectionBreak pos => (Runs.find d.sruns pos.toNat).1 < d.sruns.cap

instance (d : DfDoc) : DecidablePred (Guard d) := fun e => by
  cases e <;> unfold Guard <;> infer_instance

/-- The edits that are an undo step; the others change nothing. -/
def records (d : DfDoc) : Edit → Bool
  | .insert pos utf8 | .insertFmt pos utf8 _ =>
    pos.toNat ≤ d.pt.total ∧ utf8.val.length ≠ 0
  | .delete pos n => pos.toNat ≤ d.pt.total ∧ n.toNat ≠ 0
  | .applyCharFmt _ n cf => n.toNat ≠ 0 ∧ cf.any (·.mask ≠ 0)
  | .setParaFmt _ _ pf => pf.any (·.mask ≠ 0)
  | .setParaStyle _ _ _ => true
  | .setSectionPageAt pos _ => pos.toNat ≤ d.pt.total
  | .insertSectionBreak pos => pos.toNat ≤ d.pt.total ∧
      (Runs.find d.sruns pos.toNat).2 ≠ 0
  | .removeSectionBreak pos => (Runs.find d.sruns pos.toNat).2 = 0 ∧
      (Runs.find d.sruns pos.toNat).1 ≠ 0

namespace Shows

variable {d : DfDoc} {v : View}

section

variable (shown : Shows d v)
include shown

theorem insertText {pos : Nat} {data : List UInt8}
    (inside : pos ≤ d.pt.total) (fits : InsertFits d.pt data.length) :
    ∃ d' v', insertText d pos data = some (.ok, d') ∧ Framed d d' ∧
      Shows d' v' ∧ (∀ more, Room d.cruns more → Room d'.cruns more) ∧ v'.text = v.text.take pos ++
      data ++ v.text.drop pos ∧ Runs.insert d.pruns pos data.length = some d'.pruns := by
  have layers := shown.layers
  rw [shown.text.total] at inside
  obtain ⟨result, pt, inserts, orig, add, outcome⟩ := shown.text.insert inside (.inr fits) true true
  obtain ⟨rfl, text⟩ : result = .ok ∧ Holds pt (v.text.take pos ++ data ++ v.text.drop pos) := by
    rcases outcome with ok | ⟨_, refused, _⟩
    · exact ok
    · cases refused
  have length : (v.text.take pos ++ data ++ v.text.drop pos).length =
      v.text.length + data.length := by
    simp only [length_append, length_take, length_drop]
    omega
  have small : v.text.length + data.length < word := by
    rw [← shown.text.total]
    exact fits.2.1
  obtain ⟨cruns, insertsC, spansC, room⟩ := layers.spansC.insert pos small
  obtain ⟨pruns, insertsP, spansP, _⟩ := layers.spansP.insert pos small
  obtain ⟨sruns, insertsS, spansS, _⟩ := layers.spansS.insert pos small
  rw [← length] at spansC spansP spansS
  refine ⟨{ d with pt := pt, cruns := cruns, pruns := pruns, sruns := sruns },
    ⟨_, _, _, _, d.sections⟩, ?_, ⟨rfl, rfl, add, orig⟩,
    ⟨text, ⟨spansC, spansP, spansS, rfl, rfl, rfl, rfl, layers.filled,
      layers.narrow⟩, shown.stored, shown.narrow⟩, room, rfl, insertsP⟩
  simp [Doc.Document.insertText, inserts, insertsC, insertsP, insertsS]

theorem deleteText {pos n : Nat} (inside : pos ≤ d.pt.total) (fits : DeleteFits d.pt pos n) :
    ∃ pt cruns pruns sruns v', PieceTable.delete d.pt pos n true = some (.ok, pt) ∧
      Runs.delete d.cruns pos n = some cruns ∧ Runs.delete d.pruns pos n = some pruns ∧
      Runs.delete d.sruns pos n = some sruns ∧ pt.add = d.pt.add ∧ pt.orig = d.pt.orig ∧
      Shows { d with pt := pt, cruns := cruns, pruns := pruns, sruns := sruns }
        v' := by
  have layers := shown.layers
  rw [shown.text.total] at inside
  obtain ⟨result, pt, deletes, orig, add, outcome⟩ := shown.text.delete inside (.inr fits) true
  obtain ⟨rfl, text⟩ : result = .ok ∧ Holds pt (v.text.take pos ++ v.text.drop (pos + n)) := by
    rcases outcome with ok | ⟨_, refused, _⟩
    · exact ok
    · cases refused
  have length : (v.text.take pos ++ v.text.drop (pos + n)).length =
      v.text.length - min n (v.text.length - pos) := by
    simp only [length_append, length_take, length_drop]
    omega
  obtain ⟨cruns, deletesC, spansC⟩ := layers.spansC.delete trivial fits.1
  obtain ⟨pruns, deletesP, spansP⟩ := layers.spansP.delete trivial fits.1
  obtain ⟨sruns, deletesS, spansS⟩ := layers.spansS.delete layers.filled fits.1
  rw [← length] at spansC spansP spansS
  exact ⟨pt, cruns, pruns, sruns, ⟨_, _, _, _, d.sections⟩, deletes, deletesC,
    deletesP, deletesS, add, orig, text, ⟨spansC, spansP, spansS, rfl, rfl, rfl,
      rfl, layers.filled, layers.narrow⟩, shown.stored, shown.narrow⟩

theorem doApplyChar (room : Room d.cruns 2) (pos n : Nat) (cf : Option CharFmt)
    : ∃ d' v', doApplyChar d pos n cf = some d' ∧ Framed d d' ∧ Shows d' v' := by
  have layers := shown.layers
  unfold Doc.Document.doApplyChar
  cases cf with
  | none => exact ⟨d, v, rfl, .refl_of rfl rfl rfl, shown⟩
  | some cf =>
    dsimp only
    by_cases nothing : cf.mask = 0 ∨ n = 0
    · exact ⟨d, v, if_pos nothing, .refl_of rfl rfl rfl, shown⟩
    obtain ⟨cruns, applies, spans⟩ := layers.spansC.apply room pos n (overlayChar · cf) fun _ => id
    rw [if_neg nothing, applies]
    exact ⟨_, { v with cruns := cruns.runs }, rfl, .refl_of rfl rfl rfl,
      shown.text, { layers with spansC := spans, showsC := rfl },
      shown.stored, shown.narrow⟩

/-! ### Paragraphs -/

theorem byteAt (pos : Nat) : ∃ byte, PieceTable.byteAt d.pt pos = some byte :=
  ⟨_, shown.text.byteAt pos⟩

theorem paraAt (pos : Nat) : ∃ index, paraAt d pos = some index := by
  suffices counts : ∀ (positions : List Nat) (nl : Nat), ∃ index, positions.foldlM (fun nl i => do
        let byte ← PieceTable.byteAt d.pt i
        return if byte = newline then nl + 1 else nl) nl = some index from
    counts _ 0
  intro positions
  induction positions with
  | nil => exact fun nl => ⟨nl, rfl⟩
  | cons i _ ih =>
    intro nl
    obtain ⟨byte, reads⟩ := shown.byteAt i
    obtain ⟨index, counts⟩ := ih (if byte = newline then nl + 1 else nl)
    refine ⟨index, ?_⟩
    simpa [reads] using counts

theorem paraRangeFrom (index left cur s : Nat) :
    ∃ range, paraRangeFrom d index left cur s = some range := by
  induction left generalizing cur s with
  | zero => exact ⟨_, rfl⟩
  | succ left ih =>
    obtain ⟨_, reads⟩ := shown.byteAt (d.pt.total - (left + 1))
    simp only [Doc.Document.paraRangeFrom, reads, bind_eq_bind, bind_some]
    split
    · split
      · exact ⟨_, rfl⟩
      · exact ih _ _
    · exact ih _ _

theorem doSetPara (room : Room d.pruns 2) (pos n : Nat) (pf : ParaFmt) :
    ∃ d' v', doSetPara d pos n pf = some d' ∧ Framed d d' ∧ Shows d' v' := by
  have layers := shown.layers
  obtain ⟨at_, isAt⟩ : ∃ at_, (if pos > d.pt.total then d.pt.total else pos) = at_ := ⟨_, rfl⟩
  obtain ⟨p0, counts⟩ := shown.paraAt at_
  obtain ⟨p1, countsToo⟩ := shown.paraAt (paraEnd d.pt.total at_ n)
  obtain ⟨first, ranges⟩ := shown.paraRangeFrom p0 d.pt.total 0 0
  obtain ⟨last, rangesToo⟩ := shown.paraRangeFrom p1 d.pt.total 0 0
  obtain ⟨pruns, applies, spans⟩ := layers.spansP.apply room (first.getD (0, 0)).1
    (paraSpan (first.getD (0, 0)) (last.getD (0, 0))) (overlayPara · pf) fun _ => id
  refine ⟨{ d with pruns := pruns }, { v with pruns := pruns.runs }, ?_,
    .refl_of rfl rfl rfl, shown.text,
    { layers with spansP := spans, showsP := rfl }, shown.stored,
    shown.narrow⟩
  unfold Doc.Document.doSetPara
  dsimp only
  rw [isAt, counts, bind_eq_bind, bind_some, countsToo, bind_eq_bind, bind_some, paraRange, ranges,
    bind_eq_bind, bind_some, paraRange, rangesToo, bind_some, applies]
  rfl

/-! ### Sections -/

theorem sectionAt (pos : Nat) :
    ∃ si, Runs.payloadAt d.sruns pos = some si ∧ si < d.sections.length := by
  have spans := shown.layers.spansS
  have some : 0 < d.sruns.runs.length := length_pos_iff.mpr spans.filled
  have bound : Runs.runAt d.sruns pos < d.sruns.runs.length := by
    unfold Runs.runAt
    split <;> omega
  refine ⟨_, ?_, spans.each _ (getElem_mem bound)⟩
  rw [Runs.payloadAt, List.getElem?_eq_getElem bound]
  rfl

theorem setPage (si : Nat) (p : PageSetup) :
    Shows { d with sections := d.sections.set si p }
      { v with sections := d.sections.set si p } := by
  have layers := shown.layers
  have length : (d.sections.set si p).length = d.sections.length := length_set
  refine ⟨shown.text, { layers with
    spansS := ?_
    showsSections := rfl
    filled := ?_
    narrow := ?_ }, ?_, shown.narrow⟩
  all_goals dsimp only
  all_goals rw [length]
  · exact layers.spansS
  · exact layers.filled
  · exact layers.narrow
  · exact shown.stored

theorem sectAdd (p : PageSetup)
    (fits : d.sections.length < d.sectionsCap ∨ d.sectionsCap * 2 * pageSetupSize < word) :
    ∃ cap, sectAdd d p = some (d.sections.length,
        { d with sections := d.sections ++ [p], sectionsCap := cap }) ∧
      d.sections.length + 1 ≤ cap ∧ cap * pageSetupSize < word := by
  have stored := shown.stored
  have some := shown.layers.filled
  unfold Doc.Document.sectAdd
  by_cases full : d.sections.length = d.sectionsCap
  · have doubles := fits.resolve_left (by omega)
    refine ⟨d.sectionsCap * 2, ?_, by omega, doubles⟩
    simp [full, show d.sectionsCap ≠ 0 by omega, doubles]
  · refine ⟨d.sectionsCap, ?_, by omega, shown.narrow⟩
    simp [full]

theorem breakSection {pos : Nat} (apart : (Runs.find d.sruns pos).2 ≠ 0) (room : Room d.sruns 1)
    (fits : d.sections.length < d.sectionsCap ∨ d.sectionsCap * 2 * pageSetupSize < word) :
    ∃ idx sruns right page cap v', Runs.splitAt d.sruns pos = some (idx, sruns) ∧
      sruns.runs[idx]? = some right ∧ d.sections[right.payload]? = some page ∧
      Document.sectAdd { d with sruns := sruns } page = some (d.sections.length,
        { d with sruns := sruns, sections := d.sections ++ [page], sectionsCap := cap }) ∧
      Shows { d with
        sruns := { sruns with runs := sruns.runs.set idx ⟨right.len, d.sections.length⟩ }
        sections := d.sections ++ [page]
        sectionsCap := cap } v' := by
  have layers := shown.layers
  obtain ⟨idx, sruns, splits, spans, _, halves⟩ := layers.spansS.splitAt (Nat.zero_le 1) room pos
  obtain ⟨right, isRight⟩ := halves apart
  obtain ⟨bound, there⟩ := List.getElem?_eq_some_iff.mp isRight
  have inTable : right.payload < d.sections.length := spans.each right (mem_of_getElem? isRight)
  have cut : Shows { d with sruns := sruns } { v with sruns := sruns.runs } :=
    ⟨shown.text, { layers with spansS := spans, showsS := rfl }, shown.stored, shown.narrow⟩
  obtain ⟨cap, adds, stored, narrow⟩ := cut.sectAdd d.sections[right.payload] fits
  have length : (d.sections ++ [d.sections[right.payload]]).length =
      d.sections.length + 1 := length_append
  have lengths : (sruns.runs.set idx ⟨right.len, d.sections.length⟩).map
      (·.len) = sruns.runs.map (·.len) := by
    refine ext_getElem (by simp) fun i _ _ => ?_
    simp only [getElem_map, getElem_set]
    split
    case isTrue same =>
        subst same
        rw [there]
    case isFalse => rfl
  have relabelled := (spans.weaken fun _ =>
    Nat.lt_succ_of_lt).relabel lengths fun run member => by
      rcases mem_or_eq_of_mem_set member with old | rfl
      · exact Nat.lt_succ_of_lt (spans.each run old)
      · exact Nat.lt_succ_self _
  rw [Nat.succ_eq_add_one, ← length] at relabelled
  refine ⟨idx, sruns, right, _, cap, { v with
    sruns := sruns.runs.set idx ⟨right.len, d.sections.length⟩
    sections := _ }, splits, isRight, List.getElem?_eq_getElem inTable, adds,
    shown.text, { layers with
      spansS := relabelled
      showsS := rfl
      showsSections := rfl
      filled := ?_
      narrow := ?_ }, ?_, narrow⟩
  all_goals dsimp only
  all_goals rw [length]
  · exact Nat.succ_pos _
  · exact lt_of_le_of_lt (Nat.mul_le_mul_right _ stored) narrow
  · exact stored

theorem joinSections {pos : Nat} (later : (Runs.find d.sruns pos).1 ≠ 0)
    (stored : (Runs.find d.sruns pos).1 < d.sruns.cap) :
    ∃ left sruns v', d.sruns.runs[(Runs.find d.sruns pos).1 - 1]? = some left ∧
      writePayload d.sruns (Runs.find d.sruns pos).1 left.payload = some sruns ∧
      Shows { d with sruns := Runs.merge sruns } v' := by
  have layers := shown.layers
  have spans := layers.spansS
  have reached : (Runs.find d.sruns pos).1 ≤ d.sruns.runs.length := by
    rcases find_cases (by rw [spans.sum]; exact spans.small) pos with
      ⟨run, there, _⟩ | ⟨past, _⟩
    · exact le_of_lt (List.getElem?_eq_some_iff.mp there).1
    · exact le_of_eq (congrArg Prod.fst past)
  have bound : (Runs.find d.sruns pos).1 - 1 < d.sruns.runs.length := by omega
  have inTable := spans.each _ (getElem_mem bound)
  have lengths : (d.sruns.runs.modify (Runs.find d.sruns pos).1 fun run =>
      { run with payload := d.sruns.runs[(Runs.find d.sruns pos).1 - 1].payload }).map (·.len) = d.sruns.runs.map (·.len) := by
    refine ext_getElem (by simp) fun i _ _ => ?_
    simp only [getElem_map, getElem_modify]
    split <;> rfl
  have relabelled := (spans.relabel lengths fun run member => by
    obtain ⟨_, _, rfl⟩ := mem_iff_getElem.mp member
    rw [getElem_modify]
    split
    · exact inTable
    · exact spans.each _ (getElem_mem _)).merge
  exact ⟨_, _, { v with sruns := (Runs.merge _).runs },
    List.getElem?_eq_getElem bound, if_pos stored, shown.text, { layers with
      spansS := relabelled
      showsS := rfl }, shown.stored, shown.narrow⟩

end

end Shows

end MainDob.Proofs.Document
