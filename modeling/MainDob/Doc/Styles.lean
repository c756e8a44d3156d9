/-
Purpose: Named styles and their cascade in `libdobdoc/src/document.c`, and the
  resolved format of a paragraph and of a character.
Main exports: Style, resolveStylePara, paraFmtOf
-/
import MainDob.Doc.Document

namespace MainDob.Doc.Styles

open Runs (Payload)
open Document

def allPf : UInt16 :=
  pfAlign ||| pfIndentLeft ||| pfIndentRight ||| pfIndentFirst |||
    pfSpaceBefore ||| pfSpaceAfter ||| pfLineSpacing ||| pfStyle

/-- `Style`, without its name and the format of its characters. -/
structure Style where
  parent : Int16
  pf : ParaFmt
deriving DecidableEq

/-- The styles a style inherits from, itself first, `depth` of them at most. -/
def chain (styles : List Style) : Nat → Int → List Style
  | 0, _ => []
  | depth + 1, s =>
    if s < 0 then []
    else
      match styles[s.toNat]? with
      | none => []
      | some style => style :: chain styles depth style.parent.toInt

/-- `chain[16]`. -/
def chainDepth : Nat := 16

/-- `resolve_style_para`: the root of the chain is overlaid first. -/
def resolveStylePara (styles : List Style) (styleId : Int) : ParaFmt :=
  { (chain styles chainDepth styleId).foldr (fun style out => overlayPara out style.pf)
      { (Payload.zero : ParaFmt) with styleId := Int16.ofInt styleId } with
    mask := allPf }

/-- What a direct format comes to: its style, and over it the format itself. -/
def paraFmtOf (styles : List Style) (direct : ParaFmt) : ParaFmt :=
  let style := if direct.mask &&& pfStyle ≠ 0 then direct.styleId.toInt else 0
  { overlayPara (resolveStylePara styles style) direct with mask := allPf }

/-- `df_doc_para_fmt_resolved`; `none` is a read outside a buffer. -/
def paraFmtResolved (styles : List Style) (d : DfDoc) (index : Nat) :
    Option ParaFmt := do
  match ← paraRange d index with
  | none => return resolveStylePara styles 0
  | some (start, _) =>
    let direct ← Runs.payloadAt d.pruns start
    return paraFmtOf styles direct

/-! ### Characters -/

def allCf : UInt16 :=
  cfFamily ||| cfSize ||| cfBold ||| cfItalic ||| cfUnderline ||| cfColor |||
    cfStrike ||| cfHighlight

/-- What the characters take of a document: `def_cf`, and of each style its parent
and its format. -/
structure CharStyles where
  defCf : CharFmt
  styles : List (Int16 × CharFmt)

/-- The formats a style inherits, its own first, `depth` of them at most. -/
def charChain (styles : List (Int16 × CharFmt)) : Nat → Int → List CharFmt
  | 0, _ => []
  | depth + 1, s =>
    if s < 0 then []
    else
      match styles[s.toNat]? with
      | none => []
      | some (parent, cf) => cf :: charChain styles depth parent.toInt

/-- `resolve_style_char`. -/
def resolveStyleChar (cs : CharStyles) (styleId : Int) : CharFmt :=
  { (charChain cs.styles chainDepth styleId).foldr (fun cf out => overlayChar out cf) cs.defCf with
    mask := allCf }

/-- `df_doc_char_fmt_at_para`; `none` is a read outside a list. -/
def charFmtAtPara (cs : CharStyles) (d : DfDoc) (paraStart pos : Nat) :
    Option CharFmt := do
  let pdirect ← Runs.payloadAt d.pruns paraStart
  let style := if pdirect.mask &&& pfStyle ≠ 0 then pdirect.styleId.toInt else 0
  let cdirect ← Runs.payloadAt d.cruns pos
  return { overlayChar (resolveStyleChar cs style) cdirect with mask := allCf }

/-- `df_doc_char_fmt_at`: the start stays 0 where there is no such paragraph. -/
def charFmtAt (cs : CharStyles) (d : DfDoc) (pos : Nat) : Option CharFmt := do
  let pi ← paraAt d pos
  let range ← paraRange d pi
  let pdirect ← Runs.payloadAt d.pruns (range.getD (0, 0)).1
  let style := if pdirect.mask &&& pfStyle ≠ 0 then pdirect.styleId.toInt else 0
  let cdirect ← Runs.payloadAt d.cruns pos
  return { overlayChar (resolveStyleChar cs style) cdirect with mask := allCf }

end MainDob.Doc.Styles
