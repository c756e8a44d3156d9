/-
Purpose: How boot/hotplug/das.c ranks the entries of the automation database for a
  device: the score of an entry, the best entry and the list of all that match.
Trusted boundary: an entry and a device are the fields that the score reads
Main exports: Entry, Device, Database
-/

namespace MainDob.Hotplug.Das

def busTypePci : UInt8 := 0

def busTypeLegacyFdc : UInt8 := 1

def busTypeLegacyIdeAtapi : UInt8 := 2

def busTypeSubdevice : UInt8 := 3

def dasMaxEntries : Nat := 32

def dasRankMax : Int := 65535

def dasNoMatch : Int := -1

/-- A `das_entry_t`: zero stands for any, as do 0xFF in `progIf` and a negative
`revision`; a negative `rank` is none. -/
structure Entry where
  used : Bool := true
  busType : UInt8
  ioBase : UInt16 := 0
  vendorId : UInt16 := 0
  deviceId : UInt16 := 0
  classCode : UInt8 := 0
  subclass : UInt8 := 0
  progIf : UInt8 := 0xFF
  subsystemVendor : UInt16 := 0
  subsystemDevice : UInt16 := 0
  revision : Int16 := -1
  rank : Int32 := -1
  volumeFs : UInt8 := 0

/-- A `hw_device_t`. -/
structure Device where
  busType : UInt8
  ioBase : UInt16 := 0
  vendorId : UInt16 := 0
  deviceId : UInt16 := 0
  classCode : UInt8 := 0
  subclass : UInt8 := 0
  progIf : UInt8 := 0
  subsystemVendorId : UInt16 := 0
  subsystemDeviceId : UInt16 := 0
  revision : UInt8 := 0
  volumeFs : UInt8 := 0

/-- `db`, up to `db_count`. -/
structure Database where
  entries : List Entry
  count_le : entries.length ≤ dasMaxEntries

/-! ### Scores -/

/-- The points of a filter that is set. -/
def points (isSet : Bool) (n : Int) : Int := if isSet then n else 0

/-- `das_score` for an entry of exact vendor and device. -/
def scoreVendor (e : Entry) (hw : Device) : Int :=
  if e.vendorId ≠ hw.vendorId ∨ e.deviceId ≠ hw.deviceId then dasNoMatch
  else if e.progIf ≠ 0xFF ∧ e.progIf ≠ hw.progIf then dasNoMatch
  else if e.subsystemVendor ≠ 0 ∧ e.subsystemVendor ≠ hw.subsystemVendorId then dasNoMatch
  else if e.subsystemVendor ≠ 0 ∧ e.subsystemDevice ≠ 0 ∧
      e.subsystemDevice ≠ hw.subsystemDeviceId then dasNoMatch
  else if 0 ≤ e.revision.toInt ∧ e.revision.toInt ≠ hw.revision.toNat then dasNoMatch
  else
    1000 + points (e.progIf != 0xFF) 1 + points (e.subsystemVendor != 0) 200 +
      points (e.subsystemVendor != 0 && e.subsystemDevice != 0) 100 +
      points (decide (0 ≤ e.revision.toInt)) 5

/-- `das_score` for an entry of a class. -/
def scoreClass (e : Entry) (hw : Device) : Int :=
  if e.classCode ≠ 0 ∧ e.classCode ≠ hw.classCode then dasNoMatch
  else if e.subclass ≠ 0 ∧ e.subclass ≠ hw.subclass then dasNoMatch
  else if e.progIf ≠ 0xFF ∧ e.progIf ≠ hw.progIf then dasNoMatch
  else points (e.classCode != 0) 10 + points (e.subclass != 0) 10 + points (e.progIf != 0xFF) 50

/-- `das_score` for an entry of a subdevice. -/
def scoreSubdevice (e : Entry) (hw : Device) : Int :=
  if (e.classCode = 0 ∨ e.classCode = hw.classCode) ∧
      (e.subclass = 0 ∨ e.subclass = hw.subclass) ∧ (e.volumeFs = 0 ∨ e.volumeFs = hw.volumeFs) then
    points (e.classCode != 0) 10 + points (e.subclass != 0) 10 + points (e.volumeFs != 0) 30
  else dasNoMatch

/-- `das_score`. -/
def dasScore (e : Entry) (hw : Device) : Int :=
  if !e.used then dasNoMatch
  else if e.busType ≠ hw.busType then dasNoMatch
  else if hw.busType = busTypeLegacyFdc then
    if e.ioBase = hw.ioBase then 100 else dasNoMatch
  else if hw.busType = busTypeLegacyIdeAtapi then
    if e.ioBase = 0 ∨ e.ioBase = hw.ioBase then 100 else dasNoMatch
  else if hw.busType = busTypeSubdevice then scoreSubdevice e hw
  else if hw.busType = busTypePci then
    if e.vendorId ≠ 0 then scoreVendor e hw else scoreClass e hw
  else dasNoMatch

/-- `das_effective_score`. -/
def dasEffectiveScore (e : Entry) (hw : Device) : Int :=
  let s := dasScore e hw
  if s < 0 then dasNoMatch
  else if 0 ≤ e.rank.toInt then dasRankMax - e.rank.toInt
  else s

/-! ### Selections -/

/-- An index and its effective score. -/
structure Cand where
  idx : Nat
  score : Int
deriving DecidableEq, Repr

/-- The loop of `das_match`: the best index and score so far. -/
def matchLoop (hw : Device) : List Entry → Nat → Int → Int → Int
  | [], _, bestIdx, _ => bestIdx
  | e :: rest, i, bestIdx, bestScore =>
    if bestScore < dasEffectiveScore e hw then
      matchLoop hw rest (i + 1) i (dasEffectiveScore e hw)
    else matchLoop hw rest (i + 1) bestIdx bestScore

/-- `das_match`. -/
def dasMatch (db : Database) (hw : Device) : Int :=
  matchLoop hw db.entries 0 dasNoMatch dasNoMatch

/-- The entries that match, as `das_match_all` collects them. -/
def collect (hw : Device) : List Entry → Nat → List Cand
  | [], _ => []
  | e :: rest, i =>
    if dasEffectiveScore e hw < 0 then collect hw rest (i + 1)
    else ⟨i, dasEffectiveScore e hw⟩ :: collect hw rest (i + 1)

/-- The inner loop of the sort, with the hole at an index: lower scores move up. -/
def shift (key : Cand) : Nat → List Cand → List Cand
  | 0, cand => cand.set 0 key
  | j + 1, cand =>
    match cand[j]? with
    | some c =>
      if c.score < key.score then shift key j (cand.set (j + 1) c) else cand.set (j + 1) key
    | none => cand

/-- The outer loop, from an index on. -/
def sortLoop : Nat → Nat → List Cand → List Cand
  | 0, _, cand => cand
  | n + 1, i, cand =>
    match cand[i]? with
    | some key => sortLoop n (i + 1) (shift key i cand)
    | none => cand

/-- `das_match_all`: the indices it emits. -/
def dasMatchAll (db : Database) (hw : Device) (max : Int) : List Nat :=
  if max ≤ 0 then []
  else
    let cand := (collect hw db.entries 0).take dasMaxEntries
    ((sortLoop (cand.length - 1) 1 cand).take max.toNat).map (·.idx)

end MainDob.Hotplug.Das
