/-
Purpose: The document of `libdobdoc/src/document.c`: its text, its three run
  lists, its section table, the edits on them and the undo and redo stacks.
Trusted boundary: the allocator has the memory that is asked for.  The vectors
  behind the two stacks hold at most 501 states and are not followed; the unused
  bytes of a payload are zero and stay so.
Main exports: CharFmt, ParaFmt, PageSetup
-/
import MainDob.Doc.Runs

namespace MainDob.Doc.Document

open PieceTable (word Table Result Snapshot Block)
open Runs (Runlist Payload)

/-! ## Formats -/

def cfFamily : UInt16 := 1
def cfSize : UInt16 := 2
def cfBold : UInt16 := 4
def cfItalic : UInt16 := 8
def cfUnderline : UInt16 := 16
def cfColor : UInt16 := 32
def cfStrike : UInt16 := 64
def cfHighlight : UInt16 := 128

/-- `CharFmt`; `mask` says which fields are set. -/
structure CharFmt where
  mask : UInt16
  familyId : UInt16
  sizeTwips : UInt32
  bold : UInt8
  italic : UInt8
  underline : UInt8
  strike : UInt8
  color : UInt32
  highlight : UInt32
deriving DecidableEq

def pfAlign : UInt16 := 1
def pfIndentLeft : UInt16 := 2
def pfIndentRight : UInt16 := 4
def pfIndentFirst : UInt16 := 8
def pfSpaceBefore : UInt16 := 16
def pfSpaceAfter : UInt16 := 32
def pfLineSpacing : UInt16 := 64
def pfStyle : UInt16 := 128

/-- `ParaFmt`. -/
structure ParaFmt where
  mask : UInt16
  align : UInt8
  indentLeft : Int32
  indentRight : Int32
  indentFirst : Int32
  spaceBefore : UInt32
  spaceAfter : UInt32
  lineSpacing : UInt32
  styleId : Int16
deriving DecidableEq

/-- `PageSetup`. -/
structure PageSetup where
  width : UInt32
  height : UInt32
  marginLeft : UInt32
  marginRight : UInt32
  marginTop : UInt32
  marginBottom : UInt32
  bgColor : UInt32
  columns : UInt32
  columnGap : UInt32
deriving DecidableEq

/-- `sizeof(PageSetup)`. -/
def pageSetupSize : Nat := 36

instance : Payload CharFmt := ⟨20, ⟨0, 0, 0, 0, 0, 0, 0, 0, 0⟩⟩

instance : Payload ParaFmt := ⟨32, ⟨0, 0, 0, 0, 0, 0, 0, 0, 0⟩⟩

/-- The section index in the payload of `sruns`. -/
instance : Payload Nat := ⟨4, 0⟩

/-- `overlay_char`: the set fields of `o` onto `b`. -/
def overlayChar (b o : CharFmt) : CharFmt :=
  let set (bit : UInt16) (b b' : CharFmt) : CharFmt :=
    if o.mask &&& bit ≠ 0 then { b' with mask := b.mask ||| bit } else b
  let b := set cfFamily b { b with familyId := o.familyId }
  let b := set cfSize b { b with sizeTwips := o.sizeTwips }
  let b := set cfBold b { b with bold := o.bold }
  let b := set cfItalic b { b with italic := o.italic }
  let b := set cfUnderline b { b with underline := o.underline }
  let b := set cfStrike b { b with strike := o.strike }
  let b := set cfColor b { b with color := o.color }
  set cfHighlight b { b with highlight := o.highlight }

/-- `overlay_para`. -/
def overlayPara (b o : ParaFmt) : ParaFmt :=
  let set (bit : UInt16) (b b' : ParaFmt) : ParaFmt :=
    if o.mask &&& bit ≠ 0 then { b' with mask := b.mask ||| bit } else b
  let b := set pfAlign b { b with align := o.align }
  let b := set pfIndentLeft b { b with indentLeft := o.indentLeft }
  let b := set pfIndentRight b { b with indentRight := o.indentRight }
  let b := set pfIndentFirst b { b with indentFirst := o.indentFirst }
  let b := set pfSpaceBefore b { b with spaceBefore := o.spaceBefore }
  let b := set pfSpaceAfter b { b with spaceAfter := o.spaceAfter }
  let b := set pfLineSpacing b { b with lineSpacing := o.lineSpacing }
  set pfStyle b { b with styleId := o.styleId }

/-! ## The document -/

/-- `undo_state`. -/
structure UndoState where
  pieces : Snapshot
  cruns : Runlist CharFmt
  pruns : Runlist ParaFmt
  sruns : Runlist Nat
  sections : List PageSetup
deriving DecidableEq

/-- `df_doc`, as far as the edits use it.  `sections` holds the entries below
`nsections`; the stacks have their top first. -/
structure DfDoc where
  pt : Table
  cruns : Runlist CharFmt
  pruns : Runlist ParaFmt
  sruns : Runlist Nat
  sections : List PageSetup
  sectionsCap : Nat
  ustack : List UndoState
  rstack : List UndoState
deriving DecidableEq

def undoMax : Nat := 500

/-- `snapshot`. -/
def snapshot (d : DfDoc) : Option UndoState := do
  let (_, taken) ← PieceTable.snapshot d.pt true
  let pieces ← taken
  let cruns ← Runs.copy d.cruns
  let pruns ← Runs.copy d.pruns
  let sruns ← Runs.copy d.sruns
  return ⟨pieces, cruns, pruns, sruns, d.sections⟩

/-- `apply_state`. -/
def applyState (d : DfDoc) (us : UndoState) : Option DfDoc := do
  let cruns ← Runs.copy us.cruns
  let pruns ← Runs.copy us.pruns
  let sruns ← Runs.copy us.sruns
  return { d with
    pt := PieceTable.restore d.pt us.pieces true
    cruns := cruns
    pruns := pruns
    sruns := sruns
    sections := us.sections
    sectionsCap := us.sections.length }

/-- `begin_edit`: it drops the oldest state where there are too many, and all
that could be redone. -/
def beginEdit (d : DfDoc) : Option DfDoc := do
  let us ← snapshot d
  return { d with ustack := (us :: d.ustack).take undoMax, rstack := [] }

/-- `df_doc_undo`. -/
def undo (d : DfDoc) : Option (Result × DfDoc) :=
  match d.ustack with
  | [] => some (.range, d)
  | us :: ustack => do
    let cur ← snapshot d
    let d ← applyState { d with ustack := ustack, rstack := cur :: d.rstack } us
    return (.ok, d)

/-- `df_doc_redo`. -/
def redo (d : DfDoc) : Option (Result × DfDoc) :=
  match d.rstack with
  | [] => some (.range, d)
  | us :: rstack => do
    let cur ← snapshot d
    let d ← applyState { d with ustack := cur :: d.ustack, rstack := rstack } us
    return (.ok, d)

/-- `sect_add`: the index of the new section.  `none` is a size that wraps. -/
def sectAdd (d : DfDoc) (p : PageSetup) : Option (Nat × DfDoc) := do
  let cap ←
    if d.sections.length = d.sectionsCap then
      let nc := if d.sectionsCap ≠ 0 then d.sectionsCap * 2 else 4
      if nc * pageSetupSize < word then some nc else none
    else some d.sectionsCap
  return (d.sections.length, { d with sections := d.sections ++ [p], sectionsCap := cap })

/-- The A4 page of `df_doc_create`. -/
def defaultPage : PageSetup :=
  ⟨11906, 16838, 1440, 1440, 1440, 1440, 0xFFFFFFFF, 1, 720⟩

/-- `df_doc_create`: one empty run in each list, one section. -/
def create : Option DfDoc := do
  let cruns ← Runs.resetSingle Runs.empty 0 (Payload.zero : CharFmt)
  let pruns ← Runs.resetSingle Runs.empty 0 { (Payload.zero : ParaFmt) with styleId := -1 }
  let d : DfDoc :=
    ⟨PieceTable.empty, cruns, pruns, Runs.empty, [], 0, [], []⟩
  let (_, d) ← sectAdd d defaultPage
  let sruns ← Runs.resetSingle d.sruns 0 (0 : Nat)
  return { d with sruns := sruns }

/-! ## Paragraphs -/

/-- `'\n'`. -/
def newline : Int := 10

/-- `df_doc_para_at`: the newlines before a position. -/
def paraAt (d : DfDoc) (pos : Nat) : Option Nat :=
  (List.range (if pos > d.pt.total then d.pt.total else pos)).foldlM
    (fun nl i => do
      let byte ← PieceTable.byteAt d.pt i
      return if byte = newline then nl + 1 else nl) 0

/-- The loop of `df_doc_para_range`, with `left` positions to go.  The inner
`none` is a paragraph the document does not have. -/
def paraRangeFrom (d : DfDoc) (index : Nat) : Nat → Nat → Nat → Option (Option (Nat × Nat))
  | 0, cur, s => some (if cur = index then some (s, d.pt.total - s) else none)
  | left + 1, cur, s => do
    let p := d.pt.total - (left + 1)
    let byte ← PieceTable.byteAt d.pt p
    if byte = newline then
      if cur = index then some (some (s, p + 1 - s))
      else paraRangeFrom d index left (cur + 1) (p + 1)
    else paraRangeFrom d index left cur s

/-- `df_doc_para_range`: the start and the length of a paragraph. -/
def paraRange (d : DfDoc) (index : Nat) : Option (Option (Nat × Nat)) :=
  paraRangeFrom d index d.pt.total 0 0

/-! ## Edits -/

/-- `do_apply_char`. -/
def doApplyChar (d : DfDoc) (pos n : Nat) (cf : Option CharFmt) :
    Option DfDoc :=
  match cf with
  | none => some d
  | some cf =>
    if cf.mask = 0 ∨ n = 0 then some d
    else do
      let cruns ← Runs.apply d.cruns pos n (overlayChar · cf)
      return { d with cruns := cruns }

/-- The last position whose paragraph `do_set_para` formats. -/
def paraEnd (total pos n : Nat) : Nat :=
  let last := if n = 0 then pos else (pos + n + word - 1) % word
  if last > total then (if total ≠ 0 then total - 1 else 0) else last

/-- The bytes from the start of one paragraph to the end of another, each given
by its start and its length. -/
def paraSpan (first last : Nat × Nat) : Nat :=
  (last.1 + last.2 + word - first.1) % word

/-- `do_set_para`. -/
def doSetPara (d : DfDoc) (pos n : Nat) (pf : ParaFmt) :
    Option DfDoc := do
  let total := d.pt.total
  let pos := if pos > total then total else pos
  let p0 ← paraAt d pos
  let p1 ← paraAt d (paraEnd total pos n)
  let first ← paraRange d p0
  let last ← paraRange d p1
  let first := first.getD (0, 0)
  let last := last.getD (0, 0)
  let pruns ← Runs.apply d.pruns first.1 (paraSpan first last) (overlayPara · pf)
  return { d with pruns := pruns }

/-- The text and the three run lists make room for `data`. -/
def insertText (d : DfDoc) (pos : Nat) (data : List UInt8) :
    Option (Result × DfDoc) := do
  let (result, pt) ← PieceTable.insert d.pt pos data true true
  if result ≠ .ok then return (result, { d with pt := pt })
  let cruns ← Runs.insert d.cruns pos data.length
  let pruns ← Runs.insert d.pruns pos data.length
  let sruns ← Runs.insert d.sruns pos data.length
  return (.ok, { d with pt := pt, cruns := cruns, pruns := pruns, sruns := sruns })

/-- `df_doc_insert`. -/
def insert (d : DfDoc) (pos : Nat) (utf8 : List UInt8) : Option (Result × DfDoc) :=
  if pos > d.pt.total then some (.range, d)
  else if utf8.length = 0 then some (.ok, d)
  else do
    let d ← beginEdit d
    insertText d pos utf8

/-- `df_doc_insert_fmt`. -/
def insertFmt (d : DfDoc) (pos : Nat) (utf8 : List UInt8)
    (overrides : Option CharFmt) : Option (Result × DfDoc) :=
  if pos > d.pt.total then some (.range, d)
  else if utf8.length = 0 then some (.ok, d)
  else do
    let d ← beginEdit d
    let (result, d) ← insertText d pos utf8
    if result ≠ .ok then return (result, d)
    let d ← doApplyChar d pos utf8.length overrides
    return (.ok, d)

/-- `df_doc_delete`. -/
def delete (d : DfDoc) (pos n : Nat) : Option (Result × DfDoc) :=
  if pos > d.pt.total then some (.range, d)
  else if n = 0 then some (.ok, d)
  else do
    let d ← beginEdit d
    let (result, pt) ← PieceTable.delete d.pt pos n true
    if result ≠ .ok then return (result, { d with pt := pt })
    let cruns ← Runs.delete d.cruns pos n
    let pruns ← Runs.delete d.pruns pos n
    let sruns ← Runs.delete d.sruns pos n
    return (.ok, { d with pt := pt, cruns := cruns, pruns := pruns, sruns := sruns })

/-- `df_doc_apply_char_fmt`. -/
def applyCharFmt (d : DfDoc) (pos n : Nat) (cf : Option CharFmt) : Option (Result × DfDoc) :=
  if n = 0 ∨ cf.all (·.mask = 0) then some (.ok, d)
  else do
    let d ← beginEdit d
    let d ← doApplyChar d pos n cf
    return (.ok, d)

/-- `df_doc_set_para_fmt`. -/
def setParaFmt (d : DfDoc) (pos n : Nat) (pf : Option ParaFmt) : Option (Result × DfDoc) :=
  match pf with
  | none => some (.ok, d)
  | some pf =>
    if pf.mask = 0 then some (.ok, d)
    else do
      let d ← beginEdit d
      let d ← doSetPara d pos n pf
      return (.ok, d)

/-- `df_doc_set_para_style`. -/
def setParaStyle (d : DfDoc) (pos n : Nat) (styleId : Int16) : Option (Result × DfDoc) :=
  setParaFmt d pos n (some { (Payload.zero : ParaFmt) with mask := pfStyle, styleId := styleId })

/-- `df_doc_set_section_page_at`; `none` is a section index out of the table. -/
def setSectionPageAt (d : DfDoc) (pos : Nat) (p : PageSetup) : Option (Result × DfDoc) :=
  if pos > d.pt.total then some (.range, d)
  else do
    let d ← beginEdit d
    let si ← Runs.payloadAt d.sruns pos
    if si < d.sections.length then
      return (.ok, { d with sections := d.sections.set si p })
    else none

/-- `df_doc_insert_section_break`. -/
def insertSectionBreak (d : DfDoc) (pos : Nat) : Option (Result × DfDoc) :=
  if pos > d.pt.total then some (.range, d)
  else if (Runs.find d.sruns pos).2 = 0 then some (.ok, d)
  else do
    let d ← beginEdit d
    let (idx, sruns) ← Runs.splitAt d.sruns pos
    let right ← sruns.runs[idx]?
    let page ← d.sections[right.payload]?
    let (ns, d) ← sectAdd { d with sruns := sruns } page
    return (.ok, { d with
      sruns := { sruns with runs := sruns.runs.set idx ⟨right.len, ns⟩ } })

/-- The write of a payload into the run `idx`.  Past the last run it goes into
an entry that is not in use, or outside the vector. -/
def writePayload (rl : Runlist Nat) (idx payload : Nat) : Option (Runlist Nat) :=
  if idx < rl.cap then
    some { rl with
      runs := rl.runs.modify idx fun run => { run with payload := payload } }
  else none

/-- `df_doc_remove_section_break`. -/
def removeSectionBreak (d : DfDoc) (pos : Nat) : Option (Result × DfDoc) :=
  let (idx, within) := Runs.find d.sruns pos
  if within ≠ 0 ∨ idx = 0 then some (.ok, d)
  else do
    let d ← beginEdit d
    let left ← d.sruns.runs[idx - 1]?
    let sruns ← writePayload d.sruns idx left.payload
    return (.ok, { d with sruns := Runs.merge sruns })

/-! ## Calls -/

/-- The edits, each with what its caller hands over. -/
inductive Edit where
  | insert (pos : UInt32) (utf8 : Block)
  | insertFmt (pos : UInt32) (utf8 : Block) (overrides : Option CharFmt)
  | delete (pos n : UInt32)
  | applyCharFmt (pos n : UInt32) (cf : Option CharFmt)
  | setParaFmt (pos n : UInt32) (pf : Option ParaFmt)
  | setParaStyle (pos n : UInt32) (styleId : Int16)
  | setSectionPageAt (pos : UInt32) (p : PageSetup)
  | insertSectionBreak (pos : UInt32)
  | removeSectionBreak (pos : UInt32)
deriving DecidableEq

/-- One edit. -/
def edit (d : DfDoc) : Edit → Option (Result × DfDoc)
  | .insert pos utf8 => insert d pos.toNat utf8.val
  | .insertFmt pos utf8 overrides => insertFmt d pos.toNat utf8.val overrides
  | .delete pos n => delete d pos.toNat n.toNat
  | .applyCharFmt pos n cf => applyCharFmt d pos.toNat n.toNat cf
  | .setParaFmt pos n pf => setParaFmt d pos.toNat n.toNat pf
  | .setParaStyle pos n styleId => setParaStyle d pos.toNat n.toNat styleId
  | .setSectionPageAt pos p => setSectionPageAt d pos.toNat p
  | .insertSectionBreak pos => insertSectionBreak d pos.toNat
  | .removeSectionBreak pos => removeSectionBreak d pos.toNat

/-- The calls that change a document. -/
inductive Op where
  | edit (e : Edit)
  | undo
  | redo
deriving DecidableEq

/-- One call; `none` is one that goes wild. -/
def exec (d : DfDoc) : Op → Option (Result × DfDoc)
  | .edit e => edit d e
  | .undo => undo d
  | .redo => redo d

end MainDob.Doc.Document
