/-
Purpose: The text of a settings file in `boot/settingsd/main.c`: the model of one file
  in memory, the parser that reads it from the text and the printer that writes it.
Trusted boundary: the string in a `char` array is the list of its characters up to the
  NUL; `cur_e`, `cur_f` and `cur_rule` are indices
Main exports: CString, Field, InvalRule
-/
import Mathlib.Algebra.Ring.Nat

namespace MainDob.Settings

abbrev Text := List Char

abbrev settingsMaxEntries : Nat := 32
abbrev settingsMaxFields : Nat := 4
abbrev settingsMaxKeyLen : Nat := 64
abbrev settingsMaxLabelLen : Nat := 96
abbrev settingsMaxSublabelLen : Nat := 40
abbrev settingsMaxValueLen : Nat := 256
abbrev settingsMaxOptions : Nat := 12
abbrev settingsMaxOptionLen : Nat := 48
abbrev settingsMaxServiceLen : Nat := 64
abbrev settingsMaxInvalRules : Nat := 8
abbrev settingsMaxInvalTargets : Nat := 8
abbrev settingsTextMax : Nat := 196608

def settingClassFile : UInt8 := 0
def settingClassEps : UInt8 := 1
def settingString : UInt8 := 1

/-- The string in an array of `cap` bytes. -/
@[ext]
structure CString (cap : Nat) where
  chars : Text
  fits : chars.length < cap
  noNul : ∀ c ∈ chars, c ≠ '\x00'
deriving DecidableEq

section Strings

variable {cap : Nat} [NeZero cap]

scoped instance : NeZero settingsMaxSublabelLen := ⟨by decide⟩
scoped instance : NeZero settingsMaxOptionLen := ⟨by decide⟩
scoped instance : NeZero settingsMaxKeyLen := ⟨by decide⟩
scoped instance : NeZero settingsMaxLabelLen := ⟨by decide⟩
scoped instance : NeZero settingsMaxValueLen := ⟨by decide⟩

/-- An array that `memset` has cleared. -/
def CString.empty : CString cap := ⟨[], Nat.pos_of_ne_zero (NeZero.ne cap), nofun⟩

/-- `copy_bounded`. -/
def copyBounded (src : Text) : CString cap where
  chars := (src.takeWhile (· ≠ '\x00')).take (cap - 1)
  fits := lt_of_le_of_lt (List.length_take_le ..)
    (Nat.sub_lt (Nat.pos_of_ne_zero (NeZero.ne cap)) Nat.one_pos)
  noNul c member := by
    have kept := List.all_eq_true.mp List.all_takeWhile c (List.mem_of_mem_take member)
    exact of_decide_eq_true kept

end Strings

def isBlank (c : Char) : Bool := c = ' ' || c = '\t'

def isBreak (c : Char) : Bool := c = '\n' || c = '\r'

/-- `str_to_u32`. -/
def strToU32 (s : Text) : UInt32 :=
  ((s.dropWhile isBlank).takeWhile Char.isDigit).foldl
    (fun v c => v * 10 + UInt32.ofNat (c.toNat - '0'.toNat)) 0

/-! ### The model of a file -/

/-- A `field_t`. -/
@[ext]
structure Field where
  sublabel : CString settingsMaxSublabelLen := .empty
  value : CString settingsMaxValueLen := .empty
  defval : CString settingsMaxValueLen := .empty
  options : List (CString settingsMaxOptionLen) := []
  type : UInt8

/-- An `inval_rule_t`. -/
@[ext]
structure InvalRule where
  value : CString settingsMaxValueLen := .empty
  targets : List (CString settingsMaxKeyLen) := []

/-- An `entry_t`. -/
@[ext]
structure Entry where
  key : CString settingsMaxKeyLen
  label : CString settingsMaxLabelLen := .empty
  service : CString settingsMaxServiceLen := .empty
  settingClass : UInt8 := settingClassFile
  epsReadOp : UInt32 := 0
  epsWriteOp : UInt32 := 0
  fields : List Field := []
  rules : List InvalRule := []

/-! ### Parsing -/

/-- `g_file.entries` and the three cursors of `parse_text`. -/
structure Parser where
  entries : List Entry := []
  curE : Option Nat := none
  curF : Option Nat := none
  curRule : Option Nat := none

/-- A line that starts with `@`. -/
def newEntry (p : Parser) (key : Text) : Parser :=
  if p.entries.length < settingsMaxEntries ∧ key ≠ [] then
    { entries := p.entries ++ [{ key := copyBounded key }]
      curE := some p.entries.length }
  else { entries := p.entries }

/-- The line `.field`. -/
def newField (p : Parser) (e : Nat) : Parser :=
  match p.entries[e]? with
  | some entry =>
    if entry.fields.length < settingsMaxFields then
      { p with
        entries := p.entries.modify e fun entry =>
          { entry with fields := entry.fields ++ [{ type := settingString }] }
        curF := some entry.fields.length
        curRule := none }
    else { p with curF := none, curRule := none }
  | none => p

/-- The line `.invalidate`. -/
def newRule (p : Parser) (e : Nat) : Parser :=
  match p.entries[e]? with
  | some entry =>
    if entry.rules.length < settingsMaxInvalRules then
      { p with
        entries := p.entries.modify e fun entry => { entry with rules := entry.rules ++ [{}] }
        curF := none
        curRule := some entry.rules.length }
    else { p with curF := none, curRule := none }
  | none => p

/-- A property of an invalidation rule. -/
def ruleProperty (name val : Text) (rule : InvalRule) : InvalRule :=
  if name = "when".toList then { rule with value := copyBounded val }
  else if name = "target".toList then
    if rule.targets.length < settingsMaxInvalTargets then
      { rule with targets := rule.targets ++ [copyBounded val] }
    else rule
  else rule

/-- A property of a field. -/
def fieldProperty (name val : Text) (field : Field) : Field :=
  if name = "type".toList then { field with type := (strToU32 val).toUInt8 }
  else if name = "sublabel".toList then { field with sublabel := copyBounded val }
  else if name = "default".toList then { field with defval := copyBounded val }
  else if name = "value".toList then { field with value := copyBounded val }
  else if name = "opt".toList then
    if field.options.length < settingsMaxOptions then
      { field with options := field.options ++ [copyBounded val] }
    else field
  else field

/-- A property of an entry. -/
def entryProperty (name val : Text) (entry : Entry) : Entry :=
  if name = "label".toList then { entry with label := copyBounded val }
  else if name = "class".toList then { entry with settingClass := (strToU32 val).toUInt8 }
  else if name = "service".toList then { entry with service := copyBounded val }
  else if name = "readop".toList then { entry with epsReadOp := strToU32 val }
  else if name = "writeop".toList then { entry with epsWriteOp := strToU32 val }
  else entry

/-- The property goes to the innermost block that is open. -/
def property (p : Parser) (e : Nat) (name val : Text) : Parser :=
  { p with
    entries := p.entries.modify e fun entry =>
      match p.curRule, p.curF with
      | some r, _ => { entry with rules := entry.rules.modify r (ruleProperty name val) }
      | none, some f => { entry with fields := entry.fields.modify f (fieldProperty name val) }
      | none, none => entryProperty name val entry }

/-- The buffer `val` of a property. -/
def valBuffer (val : Text) : Text := val.take (settingsMaxValueLen - 1)

/-- A line within an entry: a block that begins, or a property. -/
def entryLine (p : Parser) (e : Nat) (line : Text) : Parser :=
  if line = ".field".toList then newField p e
  else if line = ".invalidate".toList then newRule p e
  else
    match line.takeWhile (· ≠ '='), line.dropWhile (· ≠ '=') with
    | c :: name, _ :: val => property p e (c :: name) (valBuffer val)
    | _, _ => p

/-- One line of the text. -/
def parseLine (p : Parser) (line : Text) : Parser :=
  match line with
  | '#' :: _ => p
  | '@' :: k => newEntry p (k.dropWhile isBlank)
  | line =>
    match p.curE with
    | some e => entryLine p e line
    | none => p

/-- The loop of `parse_text`: a line, and the line breaks behind it. -/
def parseLoop (p : Parser) : Text → Parser
  | [] => p
  | c :: rest =>
    parseLoop (parseLine p ((c :: rest).takeWhile (! isBreak ·)))
      (((c :: rest).dropWhile (! isBreak ·)).dropWhile isBreak)
termination_by text => text.length
decreasing_by
  by_cases here : isBreak c
  · simpa [List.dropWhile_cons, here, Nat.lt_succ_iff] using (List.dropWhile_suffix _).length_le
  · have shorter := (List.dropWhile_suffix (l := rest.dropWhile (! isBreak ·)) isBreak).length_le
    have shorter' := (List.dropWhile_suffix (l := rest) (! isBreak ·)).length_le
    simp only [List.dropWhile_cons, here, Bool.not_false, if_true, List.length_cons]
    omega

/-- `parse_text`. -/
def parseText (text : Text) : List Entry := (parseLoop {} text).entries

/-! ### Printing -/

/-- `append`: what does not fit is left out. -/
def append (text s : Text) : Text := text ++ s.take (settingsTextMax - 1 - text.length)

/-- Three calls of `append`. -/
def appendLine (text name s : Text) : Text := append (append (append text name) s) ['\n']

/-- `sprintf` with `%u`. -/
def appendNumber (text name : Text) (n : Nat) : Text :=
  append text (name ++ Nat.toDigits 10 n ++ ['\n'])

def serializeField (text : Text) (fl : Field) : Text :=
  let text := append text ".field\n".toList
  let text := appendNumber text "type=".toList fl.type.toNat
  let text := appendLine text "sublabel=".toList fl.sublabel.chars
  let text := appendLine text "default=".toList fl.defval.chars
  let text := appendLine text "value=".toList fl.value.chars
  fl.options.foldl (fun text o => appendLine text "opt=".toList o.chars) text

def serializeRule (text : Text) (r : InvalRule) : Text :=
  let text := append text ".invalidate\n".toList
  let text := appendLine text "when=".toList r.value.chars
  r.targets.foldl (fun text t => appendLine text "target=".toList t.chars) text

def serializeEntry (text : Text) (e : Entry) : Text :=
  let text := appendLine text "@ ".toList e.key.chars
  let text := appendLine text "label=".toList e.label.chars
  let text := appendNumber text "class=".toList e.settingClass.toNat
  let text :=
    if e.settingClass = settingClassEps then
      let text := appendLine text "service=".toList e.service.chars
      let text := appendNumber text "readop=".toList e.epsReadOp.toNat
      appendNumber text "writeop=".toList e.epsWriteOp.toNat
    else text
  e.rules.foldl serializeRule (e.fields.foldl serializeField text)

def headerLine : Text :=
  "# MainDOB .setting -- managed by settingsd. Do not edit by hand.".toList

/-- `serialize_file`. -/
def serializeFile (entries : List Entry) : Text :=
  entries.foldl serializeEntry (append [] (headerLine ++ ['\n']))

end MainDob.Settings
