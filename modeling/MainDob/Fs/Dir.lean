/-
Purpose: The directories of `boot/DobFileSystem/main.c`: short and long names,
  the scan over the records of a directory, the lookup of a path, and the
  addition, removal and update of an entry.
Trusted boundary: the check sum of long names and the times are left out, which
  no function of the server reads; a directory is read until its chain ends, for
  at most as many clusters as the volume has.
Main exports: dirIterate, dirFindEntry, resolvePath
-/
import MainDob.Fs.Fat
import MainDob.Fs.Path

namespace MainDob.Fs.Fat

/-! ### Records -/

/-- The mark of a record that was deleted. -/
def deletedMark : Nat := 0xE5

def attrDirectory : Nat := 0x10

def attrArchive : Nat := 0x20

/-- `ATTR_LFN`, the attributes of a part of a long name. -/
def attrLfn : Nat := 0x0F

namespace Slot

/-- The record is marked as never used or as deleted. -/
def vacant (slot : Slot) : Bool := slot.mark == 0 || slot.mark == deletedMark

/-- `ATTR_VOLUME_ID` is set. -/
def volumeId (slot : Slot) : Bool := slot.attr.testBit 3

/-- `ATTR_DIRECTORY` is set. -/
def directory (slot : Slot) : Bool := slot.attr.testBit 4

/-- The record is an entry: in use, no part of a long name and no label. -/
def entry (slot : Slot) : Bool :=
  !vacant slot && slot.attr != attrLfn && !volumeId slot

end Slot

/-! ### Names -/

/-- The text up to the terminator. -/
def cString (chars : List Char) : Path := chars.takeWhile (· ≠ '\x00')

/-- Characters with blanks up to a width. -/
def padded (width : Nat) (chars : List Char) : List Char :=
  chars.take width ++ List.replicate (width - chars.length) ' '

/-- The eight and three characters of a short name as text. -/
def joined83 (chars : List Char) : Path :=
  let ext := (chars.drop 8).take 3
  (chars.take 8).takeWhile (· ≠ ' ') ++
    if ext.head? ≠ some ' ' then '.' :: ext.takeWhile (· ≠ ' ') else []

def decode83Name (slot : Slot) : Path :=
  (cString (joined83 (Char.ofNat slot.mark :: slot.name))).map lower

/-- The parts of a name before and after its last dot. -/
def splitDot (name : Path) : Path × Option Path :=
  if '.' ∈ name then
    let ext := (name.reverse.takeWhile (· ≠ '.')).reverse
    (name.take (name.length - ext.length - 1), some ext)
  else (name, none)

def encode83Name (name : Path) : Option (List Char) :=
  if name = [] ∨ name.head? = some '.' then none
  else
    let (base, ext) := splitDot name
    some (padded 8 (base.map upper) ++ padded 3 ((ext.getD []).map upper))

/-- Characters that a short name cannot have or would not keep. -/
def needsLfnChar (c : Char) : Bool :=
  c ∈ [' ', '+', ',', ';', '=', '[', ']'] || ('a' ≤ c && c ≤ 'z')

def needsLfn (name : Path) : Bool :=
  let (base, ext) := splitDot name
  name.length == 0 || 12 < name.length || name.head? == some '.' || 1 < name.count '.' ||
    base.length == 0 || 8 < base.length || 3 < (ext.getD []).length || name.any needsLfnChar

/-- Where the parts of a long name are put together. -/
structure LfnState where
  hasLfn : Bool
  buf : List Char

def LfnState.start : LfnState := ⟨false, List.replicate 280 '\x00'⟩

/-- `lfn_extract_chars`. -/
def lfnExtractChars (chars buf : List Char) (offset : Nat) : List Char :=
  buf.take offset ++ chars ++ buf.drop (offset + 13)

/-- A part of a long name is met. -/
def LfnState.meet (state : LfnState) (slot : Slot) : LfnState :=
  let seq := slot.mark % 64
  let state := if slot.mark.testBit 6 then ⟨true, LfnState.start.buf⟩ else state
  if state.hasLfn && 0 < seq && seq ≤ 20 then
    ⟨true, lfnExtractChars slot.name state.buf ((seq - 1) * 13)⟩
  else state

/-! ### The scan -/

/-- A record the scan stops at. -/
structure Found where
  slot : Slot
  cluster : Nat
  index : Nat
deriving DecidableEq, Repr

inductive Scan where
  | found (entry : Found)
  | ended
  | more (state : LfnState)

/-- The records of a cluster, as `dir_iterate` goes through them; `stop` is the
callback, which ends the scan where it says `false` in the source. -/
def scanSlots (stop : Slot → Path → Bool) (isLast : Bool) (cluster : Nat) :
    List Slot → Nat → LfnState → Scan
  | [], _, state => .more state
  | slot :: rest, index, state =>
    let skip := scanSlots stop isLast cluster rest (index + 1)
    if slot.mark = 0 then
      if isLast then .ended else skip ⟨false, state.buf⟩
    else if slot.mark = deletedMark then skip ⟨false, state.buf⟩
    else if slot.attr = attrLfn then skip (state.meet slot)
    else if Slot.volumeId slot then skip ⟨false, state.buf⟩
    else
      let name := if state.hasLfn then cString state.buf else decode83Name slot
      if stop slot name then .found ⟨slot, cluster, index⟩
      else skip ⟨false, state.buf⟩

/-- The loop of `dir_iterate` over the clusters of the directory. -/
def iterLoop (stop : Slot → Path → Bool) : Nat → Volume → Nat → LfnState → Option Found × Volume
  | 0, v, _, _ => (none, v)
  | fuel + 1, v, cluster, state =>
    if 2 ≤ cluster ∧ fatIsEoc cluster = false then
      let (next, v) := fatRead v cluster
      match scanSlots stop (fatIsEoc next) cluster (v.slots cluster) 0 state with
      | .found entry => (some entry, v)
      | .ended => (none, v)
      | .more state => iterLoop stop fuel v next state
    else (none, v)

/-- `dir_iterate`: the entry the callback stopped at. -/
def dirIterate (v : Volume) (cluster : Nat) (stop : Slot → Path → Bool) : Option Found × Volume :=
  iterLoop stop (v.totalClusters + 3) v cluster LfnState.start

def dirFindEntry (v : Volume) (cluster : Nat) (name : Path) : Option Found × Volume :=
  dirIterate v cluster (fun _ other => nameEqCi name other)

/-! ### Paths -/

/-- The loop of `resolve_path` over the intermediate directories, as in
`walkDirs`, on the directories of the volume. -/
def walkLoop : Nat → Volume → Path → Nat → Nat → Option Nat × Volume
  | 0, v, _, _, _ => (none, v)
  | fuel + 1, v, rest, left, cluster =>
    if left = 0 then (some cluster, v)
    else
      let component := (rest.takeWhile (· ≠ '/')).take (pathMax - 1)
      let after := rest.drop component.length
      let skip := if after.head? = some '/' then 1 else 0
      match dirFindEntry v cluster component with
      | (none, v) => (none, v)
      | (some entry, v) =>
        if Slot.directory entry.slot then
          walkLoop fuel v (after.drop skip) (left - (component.length + skip)) entry.slot.cluster
        else (none, v)

def resolvePath (v : Volume) (path : Path) : Option (Nat × Path) × Volume :=
  if path.head? ≠ some '/' then (none, v)
  else if path = ['/'] then (some (v.rootCluster, []), v)
  else
    let last := lastSep path
    if last = 0 then (some (v.rootCluster, path.drop 1), v)
    else
      let (parent, v) := walkLoop (path.length + 1) v (path.drop 1) last v.rootCluster
      (parent.map (fun cluster => (cluster, path.drop (last + 1))), v)

/-- The record made up for a directory that is named by no entry. -/
def madeUp (cluster : Nat) : Slot := ⟨0, [], attrDirectory, cluster, 0⟩

/-- `resolve_full_path`.  The root directory comes with the place of the first
record of its cluster; the branch for an empty last component is left out, since
`resolve_path` returns one for the root only. -/
def resolveFullPath (v : Volume) (path : Path) : Option Found × Volume :=
  if path = ['/'] then (some ⟨madeUp v.rootCluster, v.rootCluster, 0⟩, v)
  else
    match resolvePath v path with
    | (none, v) => (none, v)
    | (some (parent, basename), v) => dirFindEntry v parent basename

/-! ### Updates -/

/-- The records from `index` down, as long as they are parts of a long name, are
marked deleted; the argument is the list before `index`, reversed. -/
def dropLfn : List Slot → List Slot
  | [] => []
  | slot :: rest =>
    if slot.attr = attrLfn then { slot with mark := deletedMark } :: dropLfn rest
    else slot :: rest

/-- The records of a cluster without the entry at `index`. -/
def removeAt (slots : List Slot) (index : Nat) : List Slot :=
  let slots := slots.modify index fun slot => { slot with mark := deletedMark }
  (dropLfn (slots.take index).reverse).reverse ++ slots.drop index

/-- `dir_remove_entry`. -/
def dirRemoveEntry (v : Volume) (cluster index : Nat) : Bool × Volume :=
  writeSlots v cluster (removeAt (v.slots cluster) index)

/-! ### Additions -/

/-- The short name tried for a number: its start and the number after a tilde. -/
def numbered83 (longName : Path) (n : Nat) : List Char :=
  let (base, ext) := splitDot longName
  let basis := ((base.filter (fun c => c ≠ ' ' ∧ c ≠ '.')).map upper).take 63
  let suffix := '~' :: (Nat.repr n).toList
  padded 8 (basis.take (8 - suffix.length) ++ suffix) ++
    padded 3 ((((ext.getD []).take 3).filter (· ≠ ' ')).map upper)

/-- The loop of `generate_short_name`: the last number is taken even when its
name exists. -/
def shortNameLoop (longName : Path) (cluster : Nat) :
    List Nat → Volume → List Char → List Char × Volume
  | [], v, last => (last, v)
  | n :: rest, v, _ =>
    let name := numbered83 longName n
    match dirFindEntry v cluster (joined83 name) with
    | (none, v) => (name, v)
    | (some _, v) => shortNameLoop longName cluster rest v name

def generateShortName (v : Volume) (longName : Path) (cluster : Nat) : List Char × Volume :=
  shortNameLoop longName cluster (List.range' 1 99) v (List.replicate 11 ' ')

/-- The part `seq` of a long name. -/
def buildLfnEntry (name : Path) (seq : Nat) (isLast : Bool) : Slot where
  mark := if isLast then seq + 64 else seq
  name := (((name ++ ['\x00']).drop ((seq - 1) * 13)).take 13 ++
    List.replicate 13 '\xff').take 13
  attr := attrLfn
  cluster := 0
  size := 0

/-- `write_dir_entries`: the parts of the long name, the last one first, and the
short entry. -/
def newEntries (name : Path) (lfnCount : Nat) (short : List Char)
    (first size attr : Nat) : List Slot :=
  ((List.range' 1 lfnCount).reverse.map fun seq =>
    buildLfnEntry name seq (seq == lfnCount)) ++
    [⟨(short.headD ' ').toNat, short.drop 1, attr, first, size⟩]

/-- The records of a cluster with the new ones from `start` on; those beyond the
cluster are not written. -/
def place (slots : List Slot) (start : Nat) (new : List Slot) : List Slot :=
  (slots.take start ++ new ++ slots.drop (start + new.length)).take slots.length

/-- The first run of vacant records of the length. -/
def findRun (total : Nat) : List Slot → Nat → Nat → Nat → Option Nat
  | [], _, _, _ => none
  | slot :: rest, index, runStart, runLen =>
    if Slot.vacant slot then
      let runStart := if runLen = 0 then index else runStart
      if total ≤ runLen + 1 then some runStart
      else findRun total rest (index + 1) runStart (runLen + 1)
    else findRun total rest (index + 1) runStart 0

/-- No record says any more that nothing follows. -/
def patched (slots : List Slot) : List Slot :=
  slots.map fun slot =>
    if slot.mark = 0 then { slot with mark := deletedMark } else slot

/-- The directory gets a cluster more, with the new records. -/
def extendDir (v : Volume) (cluster : Nat) (new : List Slot) : Bool × Volume :=
  let slots := v.slots cluster
  let v := if slots.any (·.mark == 0) then (writeSlots v cluster (patched slots)).2
    else v
  let (added, v) := fatAllocCluster v cluster
  if added = 0 then (false, v)
  else (true, (writeSlots v added (place (v.slots added) 0 new)).2)

/-- The loop of `dir_add_entry`. -/
def addLoop (new : List Slot) : Nat → Volume → Nat → Bool × Volume
  | 0, v, _ => (false, v)
  | fuel + 1, v, cluster =>
    if 2 ≤ cluster ∧ fatIsEoc cluster = false then
      match findRun new.length (v.slots cluster) 0 0 0 with
      | some start =>
        (true, (writeSlots v cluster (place (v.slots cluster) start new)).2)
      | none =>
        let (next, v) := fatRead v cluster
        if fatIsEoc next then extendDir v cluster new
        else addLoop new fuel v next
    else (false, v)

/-- `dir_add_entry`: that the records are written is not looked at. -/
def dirAddEntry (v : Volume) (cluster : Nat) (name : Path)
    (first size attr : Nat) : Bool × Volume :=
  if needsLfn name then
    let (short, v) := generateShortName v name cluster
    addLoop (newEntries name ((name.length + 12) / 13) short first size attr)
      (v.totalClusters + 3) v cluster
  else
    match encode83Name name with
    | none => (false, v)
    | some short =>
      addLoop (newEntries name 0 short first size attr) (v.totalClusters + 3) v cluster

end MainDob.Fs.Fat
