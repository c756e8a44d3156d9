/-
Purpose: The printer and the parser of a settings file: the text is a list of lines, each
  line is read in the block that it was written for, and so the parser builds the model
  that was printed, entry by entry.
Main exports: Entry.Plain, settings_text_round_trip
-/
import Mathlib.Data.List.Induction
import Mathlib.Data.List.TakeWhile
import MainDob.Settings.TextFile

namespace MainDob.Settings

open List

/-! ### Strings and numbers -/

theorem copyBounded_chars {cap : Nat} [NeZero cap] (s : CString cap)
    (small : cap ≤ settingsMaxValueLen) : copyBounded (valBuffer s.chars) = s := by
  have short := s.fits
  have value : valBuffer s.chars = s.chars := take_of_length_le (by omega)
  have noNul : s.chars.takeWhile (· ≠ '\x00') = s.chars :=
    takeWhile_eq_self_iff.mpr fun c member => decide_eq_true (s.noNul c member)
  refine CString.ext ?_
  rw [value]
  show (s.chars.takeWhile (· ≠ '\x00')).take (cap - 1) = s.chars
  rw [noNul]
  exact take_of_length_le (by omega)

theorem strToU32_toDigits (n : Nat) : strToU32 (Nat.toDigits 10 n) = UInt32.ofNat n := by
  have digits : ∀ c ∈ Nat.toDigits 10 n, c.isDigit := fun _ member =>
    Nat.isDigit_of_mem_toDigits (by decide) (by decide) member
  have noBlank : (Nat.toDigits 10 n).dropWhile isBlank = Nat.toDigits 10 n := by
    refine dropWhile_eq_self_iff.mpr fun some blank => ?_
    have digit := digits _ (getElem_mem some)
    simp only [isBlank, Bool.or_eq_true, decide_eq_true_eq] at blank
    rcases blank with same | same <;> rw [same] at digit <;> exact absurd digit (by decide)
  have ofNat : ∀ (s : Text) (v : Nat), s.foldl (fun v c => v * 10 + UInt32.ofNat
      (c.toNat - '0'.toNat)) (UInt32.ofNat v) = UInt32.ofNat (Nat.ofDigitChars 10 s v) := by
    intro s
    induction s with
    | nil => exact fun _ => rfl
    | cons c rest ih =>
      intro v
      rw [foldl_cons, Nat.ofDigitChars_cons, ← ih]
      simp [mul_comm]
  unfold strToU32
  rw [noBlank, takeWhile_eq_self_iff.mpr digits]
  exact (ofNat _ 0).trans (congrArg _ Nat.ofDigitChars_ten_toDigits)

theorem strToU32_digits (n : UInt32) : strToU32 (valBuffer (Nat.toDigits 10 n.toNat)) = n := by
  have short : (Nat.toDigits 10 n.toNat).length ≤ 10 :=
    (Nat.length_toDigits_le_iff (by decide) (by decide)).mpr (lt_trans n.toNat_lt (by decide))
  rw [valBuffer, take_of_length_le (le_trans short (by decide)), strToU32_toDigits]
  exact UInt32.ofNat_toNat

theorem strToU32_digits8 (n : UInt8) :
    (strToU32 (valBuffer (Nat.toDigits 10 n.toNat))).toUInt8 = n := by
  have digits := strToU32_digits n.toUInt32
  rw [UInt8.toNat_toUInt32] at digits
  rw [digits]
  exact UInt8.toUInt8_toUInt32 n

/-! ### The text as lines -/

def printLines (lines : List Text) : Text := lines.flatMap (· ++ ['\n'])

def fieldLines (fl : Field) : List Text :=
  [".field".toList, "type=".toList ++ Nat.toDigits 10 fl.type.toNat,
    "sublabel=".toList ++ fl.sublabel.chars, "default=".toList ++ fl.defval.chars,
    "value=".toList ++ fl.value.chars] ++ fl.options.flatMap fun o => ["opt=".toList ++ o.chars]

def ruleLines (r : InvalRule) : List Text :=
  [".invalidate".toList, "when=".toList ++ r.value.chars] ++
    r.targets.flatMap fun t => ["target=".toList ++ t.chars]

/-- The lines of an entry in front of its fields. -/
def headLines (e : Entry) : List Text :=
  ["@ ".toList ++ e.key.chars, "label=".toList ++ e.label.chars,
    "class=".toList ++ Nat.toDigits 10 e.settingClass.toNat] ++
  if e.settingClass = settingClassEps then
    ["service=".toList ++ e.service.chars, "readop=".toList ++ Nat.toDigits 10 e.epsReadOp.toNat,
      "writeop=".toList ++ Nat.toDigits 10 e.epsWriteOp.toNat]
  else []

def entryLines (e : Entry) : List Text :=
  headLines e ++ e.fields.flatMap fieldLines ++ e.rules.flatMap ruleLines

/-- All lines of a file. -/
def fileLines (entries : List Entry) : List Text := headerLine :: entries.flatMap entryLines

theorem append_append (text a b : Text) : append (append text a) b = append text (a ++ b) := by
  unfold append
  rw [take_append, append_assoc, length_append, length_take]
  congr 3
  omega

theorem append_nil (text : Text) : append text [] = text := by simp [append]

variable {α : Type}

theorem append_foldl {f : Text → α → Text} {g : α → Text} (each : ∀ text a, f text a = append text
    (g a)) (l : List α) : ∀ text, l.foldl f text = append text (l.flatMap g) := by
  induction l with
  | nil => exact fun text => (append_nil text).symm
  | cons a rest ih =>
    intro text
    rw [foldl_cons, ih, each, append_append, flatMap_cons]

theorem serializeField_eq (text : Text) (fl : Field) :
    serializeField text fl = append text (printLines (fieldLines fl)) := by
  unfold serializeField
  dsimp only [appendLine, appendNumber]
  rw [append_foldl fun text o => by rw [append_append, append_append]]
  simp only [append_append]
  congr 1
  simp [printLines, fieldLines, flatMap_assoc]

theorem serializeRule_eq (text : Text) (r : InvalRule) :
    serializeRule text r = append text (printLines (ruleLines r)) := by
  unfold serializeRule
  dsimp only [appendLine]
  rw [append_foldl fun text o => by rw [append_append, append_append]]
  simp only [append_append]
  congr 1
  simp [printLines, ruleLines, flatMap_assoc]

theorem serializeEntry_eq (text : Text) (e : Entry) :
    serializeEntry text e = append text (printLines (entryLines e)) := by
  unfold serializeEntry
  dsimp only [appendLine, appendNumber]
  rw [append_foldl serializeRule_eq, append_foldl serializeField_eq]
  unfold entryLines headLines
  split
  · simp only [append_append]
    congr 1
    simp [printLines, flatMap_assoc]
  · simp only [append_append]
    congr 1
    simp [printLines, flatMap_assoc]

theorem serializeFile_eq (entries : List Entry)
    (fits : (printLines (fileLines entries)).length < settingsTextMax) :
    serializeFile entries = printLines (fileLines entries) := by
  unfold serializeFile
  rw [append_foldl serializeEntry_eq, append_append]
  have same : headerLine ++ ['\n'] ++ entries.flatMap (fun e => printLines (entryLines e)) =
      printLines (fileLines entries) := by
    simp [printLines, fileLines, flatMap_assoc]
  rw [same]
  exact take_of_length_le (by simp only [length_nil]; omega)

/-! ### Line by line -/

/-- A text on one line. -/
def Unbroken (text : Text) : Prop := text.all (! isBreak ·) = true

instance (text : Text) : Decidable (Unbroken text) := inferInstanceAs (Decidable (_ = true))

/-- A line that the loop takes whole. -/
def Line (line : Text) : Prop := line ≠ [] ∧ Unbroken line

theorem parseLoop_printLines (lines : List Text) (good : ∀ line ∈ lines, Line line) :
    ∀ p, parseLoop p (printLines lines) = lines.foldl parseLine p := by
  induction lines with
  | nil =>
    intro p
    rw [printLines, flatMap_nil, parseLoop]
    rfl
  | cons line rest ih =>
    intro p
    obtain ⟨some, unbroken⟩ := good line mem_cons_self
    have later := fun line member => good line (mem_cons_of_mem _ member)
    have whole : printLines (line :: rest) = line ++ '\n' :: printLines rest := by simp [printLines]
    have keep := all_eq_true.mp unbroken
    have first : (line ++ '\n' :: printLines rest).takeWhile (! isBreak ·) = line := by
      rw [takeWhile_append_of_pos keep, takeWhile_cons_of_neg (by decide), List.append_nil]
    have left : ((line ++ '\n' :: printLines rest).dropWhile (! isBreak ·)).dropWhile isBreak =
        printLines rest := by
      rw [dropWhile_append_of_pos keep, dropWhile_cons_of_neg (by decide),
        dropWhile_cons_of_pos (by decide)]
      cases rest with
      | nil => rfl
      | cons next =>
        obtain ⟨some, unbroken⟩ := later next mem_cons_self
        obtain ⟨c, cs, rfl⟩ := exists_cons_of_ne_nil some
        have first := all_eq_true.mp unbroken c mem_cons_self
        exact dropWhile_cons_of_neg (by simpa using first)
    rw [foldl_cons, ← ih later, whole]
    obtain ⟨_, _, rfl⟩ := exists_cons_of_ne_nil some
    rw [cons_append] at first left ⊢
    rw [parseLoop, first, left]

/-! ### The blocks that are open -/

/-- The parser in the last entry. -/
def atEntry (done : List Entry) (e : Entry) (curF curRule : Option Nat) : Parser :=
  ⟨done ++ [e], some done.length, curF, curRule⟩

variable {done : List Entry} {e : Entry} {curF curRule : Option Nat}

theorem modify_last (l : List α) (a : α) (f : α → α) : (l ++ [a]).modify l.length f = l ++ [f a] :=
  modifyTailIdx_add _ 0 l [a]

/-- A name in front of an equals sign, as no marker starts. -/
def PropertyName (name : Text) : Prop :=
  name ≠ [] ∧ name.head? ≠ some '#' ∧ name.head? ≠ some '@' ∧ name.head? ≠ some '.' ∧ '=' ∉ name

instance (name : Text) : Decidable (PropertyName name) := by
  unfold PropertyName
  infer_instance

theorem parseLine_property {name : Text} (plain : PropertyName name) (val : Text) :
    parseLine (atEntry done e curF curRule) (name ++ '=' :: val) =
      property (atEntry done e curF curRule) done.length name (valBuffer val) := by
  obtain ⟨some, noComment, noEntry, noMarker, noEq⟩ := plain
  obtain ⟨c, cs, rfl⟩ := exists_cons_of_ne_nil some
  have keep : ∀ d ∈ c :: cs, decide (d ≠ '=') = true := fun d member =>
    decide_eq_true (ne_of_mem_of_not_mem member noEq)
  have apart : ∀ marker : Text, marker.head? = .some '.' → c :: cs ++ '=' :: val ≠ marker := by
    rintro _ starts rfl
    exact noMarker starts
  have inEntry : parseLine (atEntry done e curF curRule) (c :: cs ++ '=' :: val) =
      entryLine (atEntry done e curF curRule) done.length (c :: cs ++ '=' :: val) := by
    unfold parseLine
    split
    · rename_i same
      exact absurd (congrArg head? same) noComment
    · rename_i same
      exact absurd (congrArg head? same) noEntry
    · rfl
  rw [inEntry, entryLine, if_neg (apart _ rfl), if_neg (apart _ rfl),
    takeWhile_append_of_pos keep, dropWhile_append_of_pos keep,
    takeWhile_cons_of_neg (by simp), dropWhile_cons_of_neg (by simp), List.append_nil]

/-- The parser in the last field of the last entry. -/
def atField (done : List Entry) (e : Entry) (before : List Field) (fl : Field) : Parser :=
  atEntry done { e with fields := before ++ [fl] } (some before.length) none

/-- The parser in the last rule of the last entry. -/
def atRule (done : List Entry) (e : Entry) (before : List InvalRule) (r : InvalRule) : Parser :=
  atEntry done { e with rules := before ++ [r] } none (some before.length)

theorem parse_entryProperty (name val : Text) (plain : PropertyName name) :
    parseLine (atEntry done e none none) (name ++ '=' :: val) =
      atEntry done (entryProperty name (valBuffer val) e) none none := by
  rw [parseLine_property plain]
  simp [property, atEntry, modify_last]

variable {fl : Field}

theorem parse_fieldProperty {before : List Field} (name val : Text)
    (plain : PropertyName name) : parseLine (atField done e before fl) (name ++ '=' :: val) =
      atField done e before (fieldProperty name (valBuffer val) fl) := by
  rw [atField, parseLine_property plain]
  simp [property, atEntry, atField, modify_last]

variable {r : InvalRule}

theorem parse_ruleProperty {before : List InvalRule} (name val : Text)
    (plain : PropertyName name) : parseLine (atRule done e before r) (name ++ '=' :: val) =
      atRule done e before (ruleProperty name (valBuffer val) r) := by
  rw [atRule, parseLine_property plain]
  simp [property, atEntry, atRule, modify_last]

variable {p : Parser}

theorem parse_each {lines : α → List Text} {max : Nat} {todo : List α}
    (Holds : List α → Parser → Prop) (each : ∀ old a p, a ∈ todo → old.length < max → Holds old p →
      Holds (old ++ [a]) ((lines a).foldl parseLine p)) (fits : todo.length ≤ max)
    (holds : Holds [] p) : Holds todo ((todo.flatMap lines).foldl parseLine p) := by
  induction todo using List.reverseRec with
  | nil => exact holds
  | append_singleton old a ih =>
    rw [length_append, length_singleton] at fits
    rw [flatMap_append, foldl_append, flatMap_singleton]
    refine each old a _ (mem_append_right _ (mem_singleton_self a)) fits (ih ?_ ?_)
    · exact fun before b p member => each before b p (mem_append_left _ member)
    · exact Nat.le_of_succ_le fits

theorem parse_field (room : e.fields.length < settingsMaxFields)
    (fits : fl.options.length ≤ settingsMaxOptions) :
    (fieldLines fl).foldl parseLine (atEntry done e curF curRule) = atField done e e.fields fl := by
  have marker : parseLine (atEntry done e curF curRule) ".field".toList =
      atField done e e.fields { type := settingString } := by
    show newField (atEntry done e curF curRule) done.length = _
    simp [newField, atEntry, atField, modify_last, room]
  have read : ∀ {fl' : Field} (name val : Text), PropertyName name →
      parseLine (atField done e e.fields fl') (name ++ '=' :: val) =
        atField done e e.fields (fieldProperty name (valBuffer val) fl') := parse_fieldProperty
  refine parse_each (fun options p =>
    p = atField done e e.fields { fl with options := options }) ?_ fits ?_
  · rintro old o _ _ room rfl
    refine (read "opt".toList o.chars (by decide)).trans ?_
    simp (disch := decide) [fieldProperty, room, copyBounded_chars]
  show parseLine (parseLine (parseLine (parseLine (parseLine _ ".field".toList)
    ("type".toList ++ '=' :: _)) ("sublabel".toList ++ '=' :: _))
    ("default".toList ++ '=' :: _)) ("value".toList ++ '=' :: _) = _
  rw [marker, read _ _ (by decide), read _ _ (by decide), read _ _ (by decide),
    read _ _ (by decide)]
  simp (disch := decide) [fieldProperty, copyBounded_chars, strToU32_digits8]

theorem parse_rule (room : e.rules.length < settingsMaxInvalRules)
    (fits : r.targets.length ≤ settingsMaxInvalTargets) :
    (ruleLines r).foldl parseLine (atEntry done e curF curRule) = atRule done e e.rules r := by
  have marker : parseLine (atEntry done e curF curRule) ".invalidate".toList =
      atRule done e e.rules {} := by
    show newRule (atEntry done e curF curRule) done.length = _
    simp [newRule, atEntry, atRule, modify_last, room]
  refine parse_each (fun targets p =>
    p = atRule done e e.rules { r with targets := targets }) ?_ fits ?_
  · rintro old t _ _ room rfl
    refine (parse_ruleProperty "target".toList t.chars (by decide)).trans ?_
    simp (disch := decide) [ruleProperty, room, copyBounded_chars]
  show parseLine (parseLine _ ".invalidate".toList) ("when".toList ++ '=' :: _) = _
  rw [marker, parse_ruleProperty _ _ (by decide)]
  simp (disch := decide) [ruleProperty, copyBounded_chars]

/-! ### Entries -/

/-- The texts of a field. -/
def Field.texts (fl : Field) : List Text :=
  [fl.sublabel.chars, fl.defval.chars, fl.value.chars] ++ fl.options.map (·.chars)

/-- The texts of a rule. -/
def InvalRule.texts (r : InvalRule) : List Text := r.value.chars :: r.targets.map (·.chars)

/-- The texts of an entry. -/
def Entry.texts (e : Entry) : List Text :=
  [e.key.chars, e.label.chars, e.service.chars] ++ e.fields.flatMap (·.texts) ++
    e.rules.flatMap (·.texts)

/-- An entry within its caps, whose key does not start with a blank and whose strings lie
on one line each. -/
structure Entry.Plain (e : Entry) : Prop where
  fields : e.fields.length ≤ settingsMaxFields
  options : ∀ fl ∈ e.fields, fl.options.length ≤ settingsMaxOptions
  rules : e.rules.length ≤ settingsMaxInvalRules
  targets : ∀ r ∈ e.rules, r.targets.length ≤ settingsMaxInvalTargets
  unbroken : ∀ text ∈ e.texts, Unbroken text
  key : e.key.chars ≠ []
  keyStart : e.key.chars.head?.any isBlank = false

/-- An entry without a service and its opcodes. -/
def Entry.NoService (e : Entry) : Prop :=
  e.service = .empty ∧ e.epsReadOp = 0 ∧ e.epsWriteOp = 0

instance (e : Entry) : Decidable e.NoService := by
  unfold Entry.NoService
  infer_instance

theorem parse_head (room : p.entries.length < settingsMaxEntries)
    (plain : e.Plain) (service : e.settingClass ≠ settingClassEps → e.NoService) :
    (headLines e).foldl parseLine p =
      atEntry p.entries { e with fields := [], rules := [] } none none := by
  have key : parseLine p ("@ ".toList ++ e.key.chars) =
      atEntry p.entries { key := e.key } none none := by
    have start : ("@ ".toList ++ e.key.chars).tail.dropWhile isBlank = e.key.chars := by
      have keyStart := plain.keyStart
      obtain ⟨c, cs, all⟩ := exists_cons_of_ne_nil plain.key
      rw [all] at keyStart
      show (' ' :: e.key.chars).dropWhile isBlank = _
      rw [dropWhile_cons_of_pos (by decide), all]
      exact dropWhile_cons_of_neg (Bool.eq_false_iff.mp keyStart)
    have short : copyBounded e.key.chars = e.key := by
      have value : valBuffer e.key.chars = e.key.chars :=
        take_of_length_le (le_trans (le_of_lt e.key.fits) (by decide))
      rw [← value]
      exact copyBounded_chars e.key (by decide)
    show newEntry p (("@ ".toList ++ e.key.chars).tail.dropWhile isBlank) = _
    rw [start, newEntry, if_pos ⟨room, plain.key⟩, short]
    rfl
  have read : ∀ {e' : Entry} (name val : Text), PropertyName name →
      parseLine (atEntry p.entries e' none none) (name ++ '=' :: val) =
        atEntry p.entries (entryProperty name (valBuffer val) e') none none := parse_entryProperty
  unfold headLines
  split
  · show parseLine (parseLine (parseLine (parseLine (parseLine (parseLine _ _)
      ("label".toList ++ '=' :: _)) ("class".toList ++ '=' :: _)) ("service".toList ++ '=' :: _))
      ("readop".toList ++ '=' :: _)) ("writeop".toList ++ '=' :: _) = _
    rw [key, read _ _ (by decide), read _ _ (by decide), read _ _ (by decide),
      read _ _ (by decide), read _ _ (by decide)]
    simp (disch := decide) [entryProperty, copyBounded_chars, strToU32_digits8, strToU32_digits]
  · rename_i other
    obtain ⟨service, readOp, writeOp⟩ := service other
    show parseLine (parseLine (parseLine _ _) ("label".toList ++ '=' :: _))
      ("class".toList ++ '=' :: _) = _
    rw [key, read _ _ (by decide), read _ _ (by decide)]
    simp (disch := decide) [entryProperty, copyBounded_chars, strToU32_digits8, service, readOp,
      writeOp]

/-- The parser has the entries, and the last one is open. -/
def Open (done : List Entry) (e : Entry) (p : Parser) : Prop :=
  ∃ curF curRule, p = atEntry done e curF curRule

theorem parse_entry (room : p.entries.length < settingsMaxEntries)
    (plain : e.Plain) (service : e.settingClass ≠ settingClassEps → e.NoService) :
    Open p.entries e ((entryLines e).foldl parseLine p) := by
  rw [entryLines, foldl_append, foldl_append, parse_head room plain service]
  have fields : Open p.entries { e with rules := [] } ((e.fields.flatMap fieldLines).foldl parseLine
      (atEntry p.entries { e with fields := [], rules := [] } none none)) := by
    refine parse_each (fun fields => Open p.entries { e with fields, rules := [] }) ?_
      plain.fields ⟨_, _, rfl⟩
    rintro _ fl _ member room ⟨_, _, rfl⟩
    exact ⟨_, _, parse_field room (plain.options fl member)⟩
  refine parse_each (fun rules => Open p.entries { e with rules }) ?_ plain.rules fields
  rintro _ r _ member room ⟨_, _, rfl⟩
  exact ⟨_, _, parse_rule room (plain.targets r member)⟩

instance (line : Text) : Decidable (Line line) := by
  unfold Line
  infer_instance

theorem Line.append {name s : Text} (line : Line name) (unbroken : Unbroken s) : Line (name ++ s) :=
  ⟨append_ne_nil_of_left_ne_nil line.1 _, all_append.trans (Bool.and_eq_true_iff.mpr ⟨line.2, unbroken⟩)⟩

theorem digits_unbroken (n : Nat) : Unbroken (Nat.toDigits 10 n) := by
  refine all_eq_true.mpr fun c member => ?_
  have digit := Nat.isDigit_of_mem_toDigits (by decide) (by decide) member
  rw [Bool.not_eq_true', Bool.eq_false_iff]
  intro broken
  simp only [isBreak, Bool.or_eq_true, decide_eq_true_eq] at broken
  rcases broken with rfl | rfl <;> exact absurd digit (by decide)

theorem line_field (unbroken : ∀ text ∈ fl.texts, Unbroken text) :
    ∀ line ∈ fieldLines fl, Line line := by
  simp only [Field.texts, forall_mem_append, forall_mem_cons, forall_mem_map] at unbroken
  obtain ⟨⟨sublabel, defval, value, _⟩, options⟩ := unbroken
  refine forall_mem_append.mpr ⟨?_, ?_⟩
  · simp only [forall_mem_cons]
    refine ⟨by decide, .append (by decide) (digits_unbroken _), .append (by decide) sublabel,
      .append (by decide) defval, .append (by decide) value, nofun⟩
  · intro line member
    obtain ⟨o, there, inside⟩ := mem_flatMap.mp member
    cases mem_singleton.mp inside
    exact .append (by decide) (options o there)

theorem line_rule (unbroken : ∀ text ∈ r.texts, Unbroken text) :
    ∀ line ∈ ruleLines r, Line line := by
  simp only [InvalRule.texts, forall_mem_cons, forall_mem_map] at unbroken
  refine forall_mem_append.mpr ⟨?_, ?_⟩
  · simp only [forall_mem_cons]
    exact ⟨by decide, .append (by decide) unbroken.1, nofun⟩
  · intro line member
    obtain ⟨t, there, inside⟩ := mem_flatMap.mp member
    cases mem_singleton.mp inside
    exact .append (by decide) (unbroken.2 t there)

theorem line_entry (plain : e.Plain) : ∀ line ∈ entryLines e, Line line := by
  have unbroken := plain.unbroken
  simp only [Entry.texts, forall_mem_append, forall_mem_cons] at unbroken
  obtain ⟨⟨⟨key, label, service, _⟩, fields⟩, rules⟩ := unbroken
  refine forall_mem_append.mpr ⟨forall_mem_append.mpr ⟨?_, ?_⟩, ?_⟩
  · refine forall_mem_append.mpr ⟨?_, ?_⟩
    · simp only [forall_mem_cons]
      exact ⟨.append (by decide) key, .append (by decide) label,
        .append (by decide) (digits_unbroken _), nofun⟩
    split
    · simp only [forall_mem_cons]
      exact ⟨.append (by decide) service, .append (by decide) (digits_unbroken _),
        .append (by decide) (digits_unbroken _), nofun⟩
    · nofun
  · intro line member
    obtain ⟨fl, there, inside⟩ := mem_flatMap.mp member
    exact line_field (fun text mine => fields text (mem_flatMap.mpr ⟨fl, there, mine⟩)) line inside
  · intro line member
    obtain ⟨r, there, inside⟩ := mem_flatMap.mp member
    exact line_rule (fun text mine => rules text (mem_flatMap.mpr ⟨r, there, mine⟩)) line inside

/-! ### The round trip -/

theorem parseText_serializeFile {entries : List Entry}
    (lines : ∀ line ∈ fileLines entries, Line line)
    (fits : (printLines (fileLines entries)).length < settingsTextMax) :
    parseText (serializeFile entries) = ((fileLines entries).foldl parseLine {}).entries := by
  rw [serializeFile_eq entries fits, parseText, parseLoop_printLines _ lines]

/-- A file that is written and read again is the same file. -/
theorem settings_text_round_trip (entries : List Entry)
    (count : entries.length ≤ settingsMaxEntries) (plain : ∀ e ∈ entries, e.Plain)
    (services : ∀ e ∈ entries, e.settingClass ≠ settingClassEps → e.NoService)
    (fits : (printLines (fileLines entries)).length < settingsTextMax) :
    parseText (serializeFile entries) = entries := by
  have lines : ∀ line ∈ fileLines entries, Line line := by
    refine forall_mem_cons.mpr ⟨by decide, fun line member => ?_⟩
    obtain ⟨e, there, inside⟩ := mem_flatMap.mp member
    exact line_entry (plain e there) line inside
  rw [parseText_serializeFile lines fits]
  show ((entries.flatMap entryLines).foldl parseLine {}).entries = entries
  refine parse_each (fun entries p => p.entries = entries) ?_ count rfl
  rintro old e p member room rfl
  obtain ⟨_, _, same⟩ := parse_entry room (plain e member) (services e member)
  rw [same]
  rfl

/-- A choice with two rules, and the setting of a driver. -/
def sampleFile : List Entry :=
  [{ key := copyBounded "mode".toList
     label := copyBounded "@ Mode = ".toList
     fields := [{ type := 2, options := [copyBounded "#on".toList, copyBounded [] ] }, { type := 0 }]
     rules := [{ value := copyBounded ".field".toList, targets := [copyBounded "disk".toList] }, {}] },
    { key := copyBounded "disk".toList
      settingClass := settingClassEps
      service := copyBounded "ata".toList
      epsReadOp := 7
      epsWriteOp := 4294967295
      fields := [{ type := 3 }] }]

theorem settings_text_round_trip_sample : parseText (serializeFile sampleFile) = sampleFile := by
  refine settings_text_round_trip sampleFile (by decide) ?_ (by decide) (by decide +kernel)
  refine forall_mem_cons.mpr ⟨?_, forall_mem_cons.mpr ⟨?_, nofun⟩⟩
  · exact ⟨by decide, by decide, by decide, by decide, by decide, by decide, by decide⟩
  · exact ⟨by decide, by decide, by decide, by decide, by decide, by decide, by decide⟩

/-- An entry of another class, with a service. -/
def foreign : Entry :=
  { key := copyBounded "k".toList, settingClass := 7, service := copyBounded "ata".toList }

/-- The service of an entry that is neither of the FILE nor of the EPS class is lost. -/
theorem settings_text_round_trip_fails : foreign.Plain ∧ (foreign.settingClass = settingClassFile →
    foreign.NoService) ∧ (printLines (fileLines [foreign])).length < settingsTextMax ∧
      parseText (serializeFile [foreign]) ≠ [foreign] := by
  have plain : foreign.Plain :=
    ⟨by decide, by decide, by decide, by decide, by decide, by decide, by decide⟩
  refine ⟨plain, by decide, by decide, ?_⟩
  rw [parseText_serializeFile (by decide) (by decide)]
  intro same
  have services := congrArg (·.map (·.service)) same
  exact absurd services (by decide)

end MainDob.Settings
