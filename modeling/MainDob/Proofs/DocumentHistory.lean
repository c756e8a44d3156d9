/-
Purpose: A document over all runs of edits, undos and redos refines a bounded
  history of what it shows.
Main exports: Tracks, Tracks.edit, document_history
-/
import MainDob.Lib.History
import MainDob.Lib.Runs
import MainDob.Proofs.DocumentEdits

namespace MainDob.Proofs.Document

open Lib
open Doc Doc.Document
open Doc.PieceTable (word Result)
open Doc.Runs (Payload)
open RunLists
open Option

/-- A document shows the present of a history, and its stacks hold the past and
the future. -/
structure Tracks (d : DfDoc) (h : History View) : Prop where
  now : Shows d h.now
  past : List.Forall₂ (Saved d.pt.add d.pt.orig) d.ustack h.past
  future : List.Forall₂ (Saved d.pt.add d.pt.orig) d.rstack h.future

/-- A call moves the document as `move` moves its history, or there is nothing to
move to. -/
def Moves (d : DfDoc) (h : History View) (op : Op)
    (move : History View → Option (History View)) : Prop :=
  (∃ h' d', move h = some h' ∧ exec d op = some (.ok, d') ∧ Tracks d' h') ∨
    move h = none ∧ exec d op = some (.range, d)

/-! ## Calls on a history -/

theorem Tracks.beginEdit {d : DfDoc} {h : History View} (tracks : Tracks d h) :
    ∃ ustack, beginEdit d = some { d with ustack := ustack, rstack := [] } ∧
      ∀ d' v, Framed { d with ustack := ustack, rstack := [] } d' →
        Shows d' v → Tracks d' (h.record undoMax v) := by
  obtain ⟨us, snaps, saved⟩ := tracks.now.snapshot
  refine ⟨(us :: d.ustack).take undoMax, by simp [Doc.Document.beginEdit, snaps],
    fun d' v framed shown => ⟨shown, ?_, ?_⟩⟩
  · obtain ⟨more, isMore⟩ := framed.add
    rw [framed.ustack, framed.orig, isMore]
    exact (List.forall₂_take undoMax (.cons saved tracks.past)).imp fun _ _ kept => kept.grow more
  · rw [framed.rstack]
    exact .nil

/-! The parts of `insertFmt`, `delete` and `insertSectionBreak` behind the snapshot. -/

def insertStyled (pos : Nat) (utf8 : List UInt8) (overrides : Option CharFmt) (d : DfDoc) :
    Option (Result × DfDoc) := do
  let (result, d) ← insertText d pos utf8
  if result ≠ .ok then return (result, d)
  let d ← doApplyChar d pos utf8.length overrides
  return (.ok, d)

def deleteText (pos n : Nat) (d : DfDoc) : Option (Result × DfDoc) := do
  let (result, pt) ← PieceTable.delete d.pt pos n true
  if result ≠ .ok then return (result, { d with pt := pt })
  let cruns ← Runs.delete d.cruns pos n
  let pruns ← Runs.delete d.pruns pos n
  let sruns ← Runs.delete d.sruns pos n
  return (.ok, { d with pt := pt, cruns := cruns, pruns := pruns, sruns := sruns })

def breakSection (pos : Nat) (d : DfDoc) : Option (Result × DfDoc) := do
  let (idx, sruns) ← Runs.splitAt d.sruns pos
  let right ← sruns.runs[idx]?
  let page ← d.sections[right.payload]?
  let (ns, d) ← sectAdd { d with sruns := sruns } page
  return (.ok, { d with sruns := { sruns with runs := sruns.runs.set idx ⟨right.len, ns⟩ } })

namespace Tracks

variable {d : DfDoc} {h : History View}

/-- What an edit comes to: it is no undo step and leaves the document as it is,
or what it shows is recorded. -/
def Comes (d : DfDoc) (h : History View) (e : Edit) : Prop :=
  (records d e = false ∧ ∃ result, Doc.Document.edit d e = some (result, d)) ∨ (records d e = true ∧
    ∃ d' v, Doc.Document.edit d e = some (.ok, d') ∧ Tracks d' (h.record undoMax v))

/-- An edit that takes a snapshot is recorded, where the rest of it changes what
the document shows. -/
theorem begun (tracks : Tracks d h) {e : Edit} (body : DfDoc → Option (Result × DfDoc))
    (recorded : records d e = true)
    (isEdit : Doc.Document.edit d e = Doc.Document.beginEdit d >>= body)
    (changes : ∀ d₀ : DfDoc, Shows d₀ h.now → d₀.pt = d.pt →
      d₀.cruns = d.cruns → d₀.pruns = d.pruns → d₀.sruns = d.sruns →
      d₀.sections = d.sections → d₀.sectionsCap = d.sectionsCap → ∃ d' v, body d₀ = some (.ok, d') ∧
      Framed d₀ d' ∧ Shows d' v) : Comes d h e := by
  obtain ⟨ustack, begins, follow⟩ := tracks.beginEdit
  have now := tracks.now
  obtain ⟨d', v, changed, framed, shown⟩ :=
    changes { d with ustack := ustack, rstack := [] } { now with } rfl rfl rfl rfl rfl rfl
  refine .inr ⟨recorded, d', v, ?_, follow d' v framed shown⟩
  rw [isEdit, begins]
  exact changed

section

variable (tracks : Tracks d h)
include tracks

section

variable {pos : UInt32} {utf8 : PieceTable.Block}

theorem insert (guard : Guard d (.insert pos utf8)) : Comes d h (.insert pos utf8) := by
  by_cases past : pos.toNat > d.pt.total
  · exact .inl ⟨by simp [records]; omega, .range, if_pos past⟩
  by_cases nothing : utf8.val.length = 0
  · refine .inl ⟨by simp [records, nothing], .ok, ?_⟩
    simp only [Doc.Document.edit, Doc.Document.insert, if_neg past, if_pos nothing]
  have fits := (guard.resolve_left past).resolve_left nothing
  refine tracks.begun (fun d => insertText d pos.toNat utf8.val) (by simp [records, nothing]; omega)
    (by simp only [Doc.Document.edit, Doc.Document.insert, if_neg past, if_neg nothing])
    fun d₀ shown pt _ _ _ _ _ => by
      obtain ⟨d', v, inserts, framed, shown', _⟩ := @Shows.insertText d₀ _
        shown pos.toNat utf8.val (by rw [pt]; omega) (by rw [pt]; exact fits)
      exact ⟨d', v, inserts, framed, shown'⟩

theorem insertFmt {overrides : Option CharFmt} (guard : Guard d (.insertFmt pos utf8 overrides)) :
    Comes d h (.insertFmt pos utf8 overrides) := by
  by_cases past : pos.toNat > d.pt.total
  · exact .inl ⟨by simp [records]; omega, .range, if_pos past⟩
  by_cases nothing : utf8.val.length = 0
  · refine .inl ⟨by simp [records, nothing], .ok, ?_⟩
    simp only [Doc.Document.edit, Doc.Document.insertFmt, if_neg past, if_pos nothing]
  obtain ⟨fits, room⟩ := (guard.resolve_left past).resolve_left nothing
  refine tracks.begun (insertStyled pos.toNat utf8.val overrides) (by simp [records, nothing]; omega)
    (by simp only [Doc.Document.edit, Doc.Document.insertFmt, if_neg past, if_neg nothing]; rfl)
    fun d₀ shown pt cruns _ _ _ _ => by
      obtain ⟨d₁, v₁, inserts, framed, shown₁, roomy, _⟩ := @Shows.insertText d₀
        _ shown pos.toNat utf8.val (by rw [pt]; omega) (by rw [pt]; exact fits)
      obtain ⟨d', v, applies, framed', shown'⟩ := shown₁.doApplyChar
        (roomy 2 (by rw [cruns]; exact room)) pos.toNat utf8.val.length overrides
      exact ⟨d', v, by simp [insertStyled, inserts, applies], framed.trans framed', shown'⟩

end

theorem delete {pos n : UInt32} (guard : Guard d (.delete pos n)) : Comes d h (.delete pos n) := by
  by_cases past : pos.toNat > d.pt.total
  · exact .inl ⟨by simp [records]; omega, .range, if_pos past⟩
  by_cases nothing : n.toNat = 0
  · refine .inl ⟨by simp [records, nothing], .ok, ?_⟩
    simp only [Doc.Document.edit, Doc.Document.delete, if_neg past, if_pos nothing]
  have fits := (guard.resolve_left past).resolve_left nothing
  refine tracks.begun (deleteText pos.toNat n.toNat) (by simp [records, nothing]; omega)
    (by simp only [Doc.Document.edit, Doc.Document.delete, if_neg past, if_neg nothing]; rfl)
    fun d₀ shown isPt _ _ _ _ _ => by
      obtain ⟨pt, cruns, pruns, sruns, v, deletes, deletesC, deletesP,
        deletesS, add, orig, shown'⟩ := @Shows.deleteText d₀ _ shown pos.toNat
          n.toNat (by rw [isPt]; omega) (by rw [isPt]; exact fits)
      refine ⟨_, v, ?_, ⟨?_, ?_, ⟨[], ?_⟩, ?_⟩, shown'⟩
      · simp [deleteText, deletes, deletesC, deletesP, deletesS]
      · rfl
      · rfl
      · simpa using add
      · exact orig

theorem applyCharFmt {pos n : UInt32} {cf : Option CharFmt}
    (guard : Guard d (.applyCharFmt pos n cf)) : Comes d h (.applyCharFmt pos n cf) := by
  by_cases nothing : n.toNat = 0 ∨ cf.all (·.mask = 0)
  · refine .inl ⟨?_, .ok, if_pos nothing⟩
    rcases nothing with none | clear
    · simp [records, none]
    · cases cf <;> simp_all [records]
  refine tracks.begun (fun d => do
      let d ← doApplyChar d pos.toNat n.toNat cf
      return (.ok, d)) (by cases cf <;> simp_all [records])
    (by simp only [Doc.Document.edit, Doc.Document.applyCharFmt, if_neg nothing])
    fun d₀ shown _ cruns _ _ _ _ => by
      obtain ⟨d', v, applies, framed, shown'⟩ := @Shows.doApplyChar d₀ _ shown
        (by rw [cruns]; exact guard) pos.toNat n.toNat cf
      exact ⟨d', v, by simp [applies], framed, shown'⟩

theorem setParaFmt {pos n : UInt32} {pf : Option ParaFmt}
    (room : Room d.pruns 2) : Comes d h (.setParaFmt pos n pf) := by
  cases pf with
  | none => exact .inl ⟨rfl, .ok, rfl⟩
  | some pf =>
    by_cases clear : pf.mask = 0
    · exact .inl ⟨by simp [records, clear], .ok, if_pos clear⟩
    refine tracks.begun (fun d => do
        let d ← doSetPara d pos.toNat n.toNat pf
        return (.ok, d)) (by simp [records, clear])
      (by simp only [Doc.Document.edit, Doc.Document.setParaFmt, if_neg clear])
      fun d₀ shown _ _ pruns _ _ _ => by
        obtain ⟨d', v, applies, framed, shown'⟩ := @Shows.doSetPara d₀ _
          shown (by rw [pruns]; exact room) pos.toNat n.toNat pf
        exact ⟨d', v, by simp [applies], framed, shown'⟩

theorem setSectionPageAt (pos : UInt32) (p : PageSetup) : Comes d h (.setSectionPageAt pos p) := by
  by_cases past : pos.toNat > d.pt.total
  · exact .inl ⟨by simp [records]; omega, .range, if_pos past⟩
  refine tracks.begun (fun d => do
      let si ← Runs.payloadAt d.sruns pos.toNat
      if si < d.sections.length then
        return (.ok, { d with sections := d.sections.set si p })
      else none) (by simp [records]; omega)
    (by simp only [Doc.Document.edit, Doc.Document.setSectionPageAt, if_neg past])
    fun d₀ shown _ _ _ _ _ _ => by
      obtain ⟨si, reads, inTable⟩ := shown.sectionAt pos.toNat
      refine ⟨_, _, ?_, ?_, shown.setPage si p⟩
      · simp [reads, inTable]
      · exact .refl_of rfl rfl rfl

theorem insertSectionBreak {pos : UInt32}
    (guard : Guard d (.insertSectionBreak pos)) : Comes d h (.insertSectionBreak pos) := by
  by_cases past : pos.toNat > d.pt.total
  · exact .inl ⟨by simp [records]; omega, .range, if_pos past⟩
  by_cases boundary : (Runs.find d.sruns pos.toNat).2 = 0
  · refine .inl ⟨by simp [records, boundary], .ok, ?_⟩
    simp only [Doc.Document.edit, Doc.Document.insertSectionBreak, if_neg past, if_pos boundary]
  obtain ⟨room, fits⟩ := guard
  refine tracks.begun (breakSection pos.toNat) (by simp [records, boundary]; omega)
    (by simp only [Doc.Document.edit, Doc.Document.insertSectionBreak, if_neg past, if_neg boundary]; rfl)
    fun d₀ shown _ _ _ isSruns isSections isCap => by
      obtain ⟨idx, sruns, right, page, cap, v, splits, isRight, isPage, adds,
        shown'⟩ := @Shows.breakSection d₀ _ shown pos.toNat (by rw [isSruns]; exact boundary)
          (by rw [isSruns]; exact room) (by rw [isSections, isCap]; exact fits)
      refine ⟨_, v, ?_, ?_, shown'⟩
      · simp [breakSection, splits, isRight, isPage, adds]
      · exact .refl_of rfl rfl rfl

theorem removeSectionBreak {pos : UInt32}
    (guard : Guard d (.removeSectionBreak pos)) : Comes d h (.removeSectionBreak pos) := by
  by_cases nothing : (Runs.find d.sruns pos.toNat).2 ≠ 0 ∨ (Runs.find d.sruns pos.toNat).1 = 0
  · exact .inl ⟨by simp [records]; omega, .ok, if_pos nothing⟩
  refine tracks.begun (fun d₀ => do
      let left ← d₀.sruns.runs[(Runs.find d.sruns pos.toNat).1 - 1]?
      let sruns ← writePayload d₀.sruns (Runs.find d.sruns pos.toNat).1 left.payload
      return (.ok, { d₀ with sruns := Runs.merge sruns })) (by simp [records]; omega)
    (by simp only [Doc.Document.edit, Doc.Document.removeSectionBreak, if_neg nothing])
    fun d₀ shown _ _ _ isSruns _ _ => by
      obtain ⟨left, sruns, v, isLeft, writes, shown'⟩ :=
        @Shows.joinSections d₀ _ shown pos.toNat (by rw [isSruns]; omega)
          (by rw [isSruns]; exact guard)
      rw [isSruns] at isLeft writes
      refine ⟨_, v, ?_, ?_, shown'⟩
      · simp [isSruns, isLeft, writes]
      · exact .refl_of rfl rfl rfl

theorem edit {e : Edit} (guard : Guard d e) : Comes d h e := by
  cases e with
  | insert => exact tracks.insert guard
  | insertFmt => exact tracks.insertFmt guard
  | delete => exact tracks.delete guard
  | applyCharFmt => exact tracks.applyCharFmt guard
  | setParaFmt => exact tracks.setParaFmt guard
  | setParaStyle pos n styleId =>
    exact @setParaFmt _ _ tracks pos n (some { (Payload.zero : ParaFmt) with
      mask := pfStyle
      styleId := styleId }) guard
  | setSectionPageAt pos p => exact tracks.setSectionPageAt pos p
  | insertSectionBreak => exact tracks.insertSectionBreak guard
  | removeSectionBreak => exact tracks.removeSectionBreak guard

theorem undo : Moves d h .undo History.undo := by
  obtain ⟨now, past, future⟩ := tracks
  obtain ⟨hPast, hNow, hFuture⟩ := h
  unfold Moves exec Doc.Document.undo
  cases isPast : d.ustack with
  | nil =>
    rw [isPast] at past
    cases past
    exact .inr ⟨rfl, rfl⟩
  | cons _ ustack =>
    rw [isPast] at past
    cases past with
    | cons saved rest =>
      obtain ⟨cur, snaps, kept⟩ := now.snapshot
      obtain ⟨d', applies, shown, add, orig, isU, isR⟩ := @Shows.applyState
        { d with ustack := ustack, rstack := cur :: d.rstack } _ _ _
        { now with } saved
      refine .inl ⟨_, d', rfl, by simp [snaps, applies], shown, ?_, ?_⟩
      · rw [add, orig, isU]
        exact rest
      · rw [add, orig, isR]
        exact .cons kept future

theorem redo : Moves d h .redo History.redo := by
  obtain ⟨now, past, future⟩ := tracks
  obtain ⟨hPast, hNow, hFuture⟩ := h
  unfold Moves exec Doc.Document.redo
  cases isFuture : d.rstack with
  | nil =>
    rw [isFuture] at future
    cases future
    exact .inr ⟨rfl, rfl⟩
  | cons _ rstack =>
    rw [isFuture] at future
    cases future with
    | cons saved rest =>
      obtain ⟨cur, snaps, kept⟩ := now.snapshot
      obtain ⟨d', applies, shown, add, orig, isU, isR⟩ := @Shows.applyState
        { d with ustack := cur :: d.ustack, rstack := rstack } _ _ _
        { now with } saved
      refine .inl ⟨_, d', rfl, by simp [snaps, applies], shown, ?_, ?_⟩
      · rw [add, orig, isU]
        exact .cons kept past
      · rw [add, orig, isR]
        exact rest

end

end Tracks

/-! ## Whole runs -/

/-- One call, without its result. -/
def advance (d : DfDoc) (op : Op) : Option DfDoc := (exec d op).map (·.2)

def step (d : DfDoc) (op : Op) (d' : DfDoc) : Prop := advance d op = some d'

def editStep (d : DfDoc) (e : Edit) (d' : DfDoc) : Prop := step d (.edit e) d'

/-- What a call needs; undo and redo need nothing. -/
def OpGuard (d : DfDoc) : Op → Prop
  | .edit e => Guard d e
  | .undo | .redo => True

instance (d : DfDoc) : DecidablePred (OpGuard d) := fun op => by
  cases op <;> unfold OpGuard <;> infer_instance

/-- A document in order, with nothing to undo or to redo yet. -/
structure Fresh (d : DfDoc) : Prop where
  shown : ∃ v, Shows d v
  ustack : d.ustack = []
  rstack : d.rstack = []

/-- The run lists are in step with a text that can be read, and the section
indices are inside the table. -/
structure InStep (d : DfDoc) : Prop where
  text : ∃ v, view d = some v ∧ v.text.length = d.pt.total
  cruns : sum d.cruns.runs = d.pt.total
  pruns : sum d.pruns.runs = d.pt.total
  sruns : sum d.sruns.runs = d.pt.total
  sections : ∀ run ∈ d.sruns.runs, run.payload < d.sections.length

theorem Shows.inStep {d : DfDoc} {v : View} (shown : Shows d v) : InStep d := by
  have total := shown.text.total
  have layers := shown.layers
  exact ⟨⟨v, shown.view, total.symm⟩, layers.spansC.sum.trans total.symm,
    layers.spansP.sum.trans total.symm, layers.spansS.sum.trans total.symm, layers.spansS.each⟩

/-- The undo steps of a sequence of edits. -/
def recorded : DfDoc → List Edit → Nat
  | _, [] => 0
  | d, e :: rest =>
    (if records d e then 1 else 0) + (edit d e).elim 0 fun (_, d') => recorded d' rest

theorem Fresh.tracks {d : DfDoc} (fresh : Fresh d) : ∃ v, Tracks d ⟨[], v, []⟩ := by
  obtain ⟨v, shown⟩ := fresh.shown
  refine ⟨v, shown, ?_, ?_⟩
  · rw [fresh.ustack]
    exact .nil
  · rw [fresh.rstack]
    exact .nil

theorem Moves.step {d : DfDoc} {h : History View} {op : Op}
    {move : History View → Option (History View)} (moves : Moves d h op move)
    (tracks : Tracks d h) : ∃ d' h', step d op d' ∧ Tracks d' h' := by
  rcases moves with ⟨h', d', _, goes, next⟩ | ⟨_, same⟩
  · exact ⟨d', h', by simp [Document.step, advance, goes], next⟩
  · exact ⟨d, h, by simp [Document.step, advance, same], tracks⟩

theorem Tracks.call {d : DfDoc} {h : History View} (tracks : Tracks d h)
    {op : Op} (guard : OpGuard d op) : ∃ d' h', step d op d' ∧ Tracks d' h' := by
  cases op with
  | edit =>
    rcases tracks.edit guard with ⟨_, result, same⟩ | ⟨_, d', v, edits, next⟩
    · exact ⟨d, h, by simp [step, advance, exec, same], tracks⟩
    · exact ⟨d', _, by simp [step, advance, exec, edits], next⟩
  | undo => exact tracks.undo.step tracks
  | redo => exact tracks.redo.step tracks

theorem tracks_of_run {start d : DfDoc} {ops : List Op} (fresh : Fresh start)
    (run : Steps (Guarded step OpGuard) start ops d) : ∃ h, Tracks d h := by
  obtain ⟨v, tracks⟩ := fresh.tracks
  refine @Steps.invariant _ _ _ (fun d => ∃ h, Tracks d h) ?_ _ _ _ run ⟨_, tracks⟩
  rintro first op last ⟨h, tracked⟩ ⟨taken, guard⟩
  obtain ⟨d', h', goes, next⟩ := tracked.call guard
  rw [step] at taken goes
  rw [taken, Option.some.injEq] at goes
  exact ⟨h', goes ▸ next⟩

theorem Tracks.edits {d d' : DfDoc} {h : History View} {edits : List Edit}
    (tracks : Tracks d h) (run : Steps (Guarded editStep Guard) d edits d') :
    ∃ views, views.length = recorded d edits ∧ Tracks d' (h.records undoMax views) := by
  induction run generalizing h with
  | nil => exact ⟨[], rfl, tracks⟩
  | @cons first middle last e rest head tail ih =>
    obtain ⟨taken, guard⟩ := head
    rcases tracks.edit guard with
      ⟨quiet, result, same⟩ | ⟨loud, d', v, edits, next⟩
    · have here : first = middle := by simpa [editStep, step, advance, exec, same] using taken
      subst here
      obtain ⟨views, length, tracked⟩ := ih tracks
      refine ⟨views, ?_, tracked⟩
      simp [recorded, quiet, same, length]
    · have here : d' = middle := by simpa [editStep, step, advance, exec, edits] using taken
      subst here
      obtain ⟨views, length, tracked⟩ := ih next
      refine ⟨v :: views, ?_, tracked⟩
      simp [recorded, loud, edits, length, add_comm]

section

variable {d : DfDoc} {h h' : History View}

theorem Tracks.repeat {op : Op} {move : History View → Option (History View)}
    (moves : ∀ {d h}, Tracks d h → Moves d h op move)
    (tracks : Tracks d h) {k : Nat} (goes : History.times move k h = some h') :
    ∃ d', Steps step d (List.replicate k op) d' ∧ Tracks d' h' := by
  induction k generalizing d h with
  | zero =>
    cases goes
    exact ⟨d, .nil d, tracks⟩
  | succ _ ih =>
    obtain ⟨middle, first, rest⟩ := bind_eq_some_iff.mp goes
    rcases moves tracks with ⟨h₁, d₁, isMoved, call, next⟩ | ⟨stuck, _⟩
    · rw [isMoved, Option.some.injEq] at first
      obtain ⟨d', run, tracked⟩ := ih (first ▸ next) rest
      exact ⟨d', .cons (by simp [step, advance, call]) run, tracked⟩
    · cases stuck.symm.trans first

end

theorem create_fresh : ∃ d, create = some d ∧ Fresh d := by
  refine ⟨⟨PieceTable.empty, ⟨[⟨0, Payload.zero⟩], 8⟩,
    ⟨[⟨0, { (Payload.zero : ParaFmt) with styleId := -1 }⟩], 8⟩, ⟨[⟨0, 0⟩], 8⟩,
    [defaultPage], 4, [], []⟩, by decide +kernel, ⟨⟨[], [⟨0, Payload.zero⟩],
      [⟨0, { (Payload.zero : ParaFmt) with styleId := -1 }⟩], [⟨0, 0⟩],
      [defaultPage]⟩, ?_, ?_, by decide, by decide⟩, rfl, rfl⟩
  · exact PieceTable.opened_agrees.holds
  exact {
    spansC := ⟨by simp, rfl, by decide, fun _ _ => trivial, by decide,
      ⟨3, rfl⟩, by decide, by decide⟩
    spansP := ⟨by simp, rfl, by decide, fun _ _ => trivial, by decide,
      ⟨3, rfl⟩, by decide, by decide⟩
    spansS := ⟨by simp, rfl, by decide, by simp, by decide, ⟨3, rfl⟩,
      by decide, by decide⟩
    showsC := rfl
    showsP := rfl
    showsS := rfl
    showsSections := rfl
    filled := by decide
    narrow := by decide }

/-- In every guarded run from a fresh document its lists are in step with its
text, and the next guarded call comes back.  From what it has reached, the undo
steps of further edits lead back to what it shows, and as many redos forward
again to what it showed in between and at the end. -/
theorem document_history (start d : DfDoc) (ops : List Op)
    (fresh : Fresh start) (run : Steps (Guarded step OpGuard) start ops d) :
    InStep d ∧ (∀ op, OpGuard d op → ∃ d', step d op d') ∧ ∀ before after middle last, Steps
    (Guarded editStep Guard) d before middle → Steps (Guarded editStep Guard) middle after last →
      recorded d before + recorded middle after ≤ undoMax → ∃ back forth again,
      Steps step last (List.replicate (recorded d before + recorded middle after) .undo) back ∧
        view back = view d ∧ Steps step back (List.replicate (recorded d before) .redo) forth ∧
        view forth = view middle ∧ Steps step forth
        (List.replicate (recorded middle after) .redo) again ∧ view again = view last := by
  obtain ⟨h, tracks⟩ := tracks_of_run fresh run
  refine ⟨tracks.now.inStep, fun op guard => ?_, ?_⟩
  · obtain ⟨d', _, goes, _⟩ := tracks.call guard
    exact ⟨d', goes⟩
  intro before after middle last first second few
  obtain ⟨views, length, reached⟩ := tracks.edits first
  obtain ⟨viewsToo, lengthToo, ended⟩ := reached.edits second
  have middleNow := History.now_records undoMax h views
  have lastNow := History.now_records undoMax (h.records undoMax views) viewsToo
  rw [← length, ← lengthToo, ← List.length_append] at few ⊢
  rw [← History.records_append] at ended lastNow
  obtain ⟨past, future, undone⟩ := History.undos_records undoMax h few
  obtain ⟨back, goesBack, atBack⟩ := Tracks.repeat Tracks.undo ended undone
  obtain ⟨past', redone⟩ := History.redos_undone past h.now views viewsToo future
  obtain ⟨forth, goesForth, atForth⟩ := Tracks.repeat Tracks.redo atBack redone
  have rest := @History.redos_undone _ past'
    ((h.now :: views).getLast (List.cons_ne_nil _ _)) viewsToo [] future
  simp only [List.append_nil] at rest
  obtain ⟨past'', redoneToo⟩ := rest
  obtain ⟨again, goesAgain, atAgain⟩ := Tracks.repeat Tracks.redo atForth redoneToo
  refine ⟨back, forth, again, goesBack, ?_, goesForth, ?_, goesAgain, ?_⟩
  · rw [atBack.now.view, tracks.now.view]
  · rw [atForth.now.view, reached.now.view, middleNow]
  · rw [atAgain.now.view, ended.now.view, lastNow, middleNow]

/-- A document just created. -/
def created : DfDoc := create.get (by decide +kernel)

/-- `DD_CF_BOLD`, set. -/
def boldFmt : CharFmt := { (Payload.zero : CharFmt) with mask := cfBold, bold := 1 }

/-- Two paragraphs in two sections, the second one bold at its start, with an
undo and a redo in between. -/
def written : List Op :=
  [.edit (.insert 0 ⟨[97, 98, 10, 99], by decide⟩),
    .edit (.applyCharFmt 3 1 (some boldFmt)), .edit (.insertSectionBreak 3), .undo, .redo]

/-- Edits of which one is no undo step. -/
def revised : List Edit :=
  [.delete 1 1, .delete 0 0, .setParaStyle 0 1 1, .removeSectionBreak 2]

/-- Three undos bring the document back, and three redos what the edits made of
it. -/
theorem document_history_written :
    ∃ d last back forth, Steps (Guarded step OpGuard) created written d ∧
      InStep d ∧ d.cruns.runs.map (·.len) = [3, 1] ∧ d.sruns.runs.map (·.len) = [3, 1] ∧
      Steps (Guarded editStep Guard) d revised last ∧ last.sruns.runs.map (·.len) = [3] ∧
      Steps step last (List.replicate 3 .undo) back ∧ view back = view d ∧
      Steps step back (List.replicate 3 .redo) forth ∧ view forth = view last := by
  have followed : ((followRun (checked advance fun d op => decide (OpGuard d op))
      created written).bind fun d => (followRun (checked (fun d e => advance d (.edit e))
        fun d e => decide (Guard d e)) d revised).map fun last =>
          (d.cruns.runs.map (·.len), d.sruns.runs.map (·.len),
            recorded d revised, last.sruns.runs.map (·.len))) =
      some ([3, 1], [3, 1], 3, [3]) := by
    decide +kernel
  obtain ⟨d, ran, rest⟩ := bind_eq_some_iff.mp followed
  obtain ⟨last, edits, seen⟩ := Steps.guarded_of_followed of_decide_eq_true rest
  simp only [Prod.mk.injEq] at seen
  obtain ⟨cruns, sruns, steps, after⟩ := seen
  have run : Steps (Guarded step OpGuard) created written d :=
    Steps.guarded_of_followRun of_decide_eq_true ran
  have fresh : Fresh created := by
    obtain ⟨d, creates, fresh⟩ := create_fresh
    have same : created = d := get_of_eq_some _ creates
    exact same ▸ fresh
  obtain ⟨inStep, _, history⟩ := document_history created d written fresh run
  obtain ⟨back, forth, again, goesBack, isBack, goesForth, _, goesAgain, isAgain⟩ := history revised
    [] last last edits (.nil last) (by rw [steps]; exact Nat.le_of_ble_eq_true rfl)
  rw [steps] at goesBack goesForth
  cases goesAgain
  exact ⟨d, last, back, forth, run, inStep, cruns, sruns, edits, after, goesBack,
    isBack, goesForth, isAgain⟩

theorem six_lt_word : ([97, 98, 99, 100, 101, 102] : List UInt8).length < word := by decide

/-- The end of a text of six bytes is deleted with a length whose sum with the
position wraps. -/
def wrapped : List Op :=
  [.edit (.insert 0 ⟨[97, 98, 99, 100, 101, 102], six_lt_word⟩), .edit (.delete 4 4294967294)]

/-- Eight bytes, each a section of its own. -/
def sectioned : List Op :=
  .edit (.insert 0 ⟨List.replicate 8 97, by decide⟩) ::
    [1, 2, 3, 4, 5, 6, 7].map fun pos => .edit (.insertSectionBreak pos)

/-- The deletion leaves four bytes in the run lists and eight in the text; the
removal of a section break at the end writes past the section runs. -/
theorem document_history_fails : create = some created ∧ (∃ d, Steps step created wrapped d ∧
    sum d.cruns.runs = 4 ∧ d.pt.total = 8 ∧ ¬ InStep d) ∧ ∃ d, Steps step created sectioned d ∧
    d.pt.total = 8 ∧ exec d (.edit (.removeSectionBreak 8)) = none := by
  have first : (followRun advance created wrapped).map
      (fun d => (sum d.cruns.runs, d.pt.total)) = some (4, 8) := by
    decide +kernel
  have second : (followRun advance created sectioned).map
      (fun d => (d.pt.total, exec d (.edit (.removeSectionBreak 8)))) = some (8, none) := by
    decide +kernel
  obtain ⟨d, run, seen⟩ := Steps.of_followed first
  obtain ⟨d', run', seen'⟩ := Steps.of_followed second
  simp only [Prod.mk.injEq] at seen seen'
  refine ⟨(some_get _).symm, ⟨d, run, seen.1, seen.2, fun inStep => ?_⟩, d', run', seen'⟩
  have same := inStep.cruns
  rw [seen.1, seen.2] at same
  cases same

end MainDob.Proofs.Document
