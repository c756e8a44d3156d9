/-
Purpose: The READDIR request of `boot/DobFileSystem/main.c`: the entries that
  `dir_iterate` hands to a callback that never ends the scan, the callback that
  packs them into the buffer of the reply, and, for a volume of the other kind,
  the paths and `exfat_readdir` of `boot/DobFileSystem/exfat.c`.
Trusted boundary: a volume is mounted; clusters of a FAT32 directory are read
  without failure
Main exports: dirVisit, readdirCb, resolve
-/
import MainDob.Fs.Dir
import MainDob.Fs.Exfat

namespace MainDob.Fs.Fat

/-! ### The scan -/

/-- The records of a cluster, as `dir_iterate` goes through them with a callback
that never ends the scan: what the callback gets, and the state of the long name
unless the directory ends here. -/
def visitSlots (isLast : Bool) : List Slot → LfnState → List (Slot × Path) × Option LfnState
  | [], state => ([], some state)
  | slot :: rest, state =>
    if slot.mark = 0 then
      if isLast then ([], none) else visitSlots isLast rest ⟨false, state.buf⟩
    else if slot.mark = deletedMark then
      visitSlots isLast rest ⟨false, state.buf⟩
    else if slot.attr = attrLfn then visitSlots isLast rest (state.meet slot)
    else if Slot.volumeId slot then visitSlots isLast rest ⟨false, state.buf⟩
    else
      let name := if state.hasLfn then cString state.buf else decode83Name slot
      let (later, finish) := visitSlots isLast rest ⟨false, state.buf⟩
      ((slot, name) :: later, finish)

/-- The loop of `dir_iterate` over the clusters of the directory. -/
def visitLoop : Nat → Volume → Nat → LfnState → List (Slot × Path) × Volume
  | 0, v, _, _ => ([], v)
  | fuel + 1, v, cluster, state =>
    if 2 ≤ cluster ∧ fatIsEoc cluster = false then
      let (next, v) := fatRead v cluster
      match visitSlots (fatIsEoc next) (v.slots cluster) state with
      | (here, none) => (here, v)
      | (here, some state) =>
        let (later, v) := visitLoop fuel v next state
        (here ++ later, v)
    else ([], v)

/-- What a callback of `dir_iterate` gets that never ends the scan. -/
def dirVisit (v : Volume) (cluster : Nat) : List (Slot × Path) × Volume :=
  visitLoop (v.totalClusters + 3) v cluster LfnState.start

end MainDob.Fs.Fat

namespace MainDob.Fs.Readdir

/-! ### The lines of a reply -/

/-- An entry as a line of the reply says it. -/
structure Entry where
  name : Path
  directory : Bool
  size : Nat
deriving DecidableEq, Repr

/-- `name\tD\tsize\n`, with the size in 32 bits. -/
def Entry.line (entry : Entry) : List Char :=
  entry.name ++ ['\t', if entry.directory then 'D' else 'F', '\t'] ++
    Nat.toDigits 10 (entry.size % 2 ^ 32) ++ ['\n']

/-- The names `.` and `..`. -/
def isDots (name : Path) : Bool :=
  name == ['.'] || name == ['.', '.']

def entryOf (shown : Slot × Path) : Entry :=
  ⟨shown.2, Fat.Slot.directory shown.1, shown.1.size⟩

/-- `readdir_cb`: a line that does not fit is left out, and the scan goes on;
`max` is the size of the buffer without its terminator. -/
def readdirCb (max : Nat) (buf : List Char) (shown : Slot × Path) :
    List Char :=
  if isDots shown.2 then buf
  else if buf.length + (entryOf shown).line.length < max then
    buf ++ (entryOf shown).line
  else buf

/-- The size of `dirbuf` and of `xbuf`. -/
def bufSize : Nat := 4096

/-! ### Names and paths of the other kind of volume -/

def exfatNameMax : Nat := 255

/-- The bytes of a UTF-16 unit in UTF-8; half of a pair becomes a question
mark. -/
def utf8Of (unit : Nat) : List Char :=
  let cp := if 0xD800 ≤ unit ∧ unit ≤ 0xDFFF then '?'.toNat else unit
  (if cp < 0x80 then [cp]
  else if cp < 0x800 then [0xC0 + cp / 64, 0x80 + cp % 64]
  else [0xE0 + cp / 4096, 0x80 + cp / 64 % 64, 0x80 + cp % 64]).map Char.ofNat

/-- `utf16_to_utf8`: it stops where the next unit does not fit. -/
def utf16ToUtf8 (cap : Nat) : List Nat → List Char → List Char
  | [], out => out
  | unit :: rest, out =>
    if out.length + (utf8Of unit).length ≥ cap then out
    else utf16ToUtf8 cap rest (out ++ utf8Of unit)

/-- The name of a file as text. -/
def nameOf (info : Exfat.FileInfo) : Path :=
  Fat.cString (utf16ToUtf8 (exfatNameMax + 1) info.name [])

/-- The search of `resolve` in a directory, with a bound on its rounds: the
file, none, or an error. -/
def findName (rd : Exfat.Reader) (name : Path) :
    Nat → Exfat.Volume → Exfat.DirCur → Exfat.NextFile × Exfat.Volume
  | 0, v, _ => (.error, v)
  | fuel + 1, v, c =>
    match Exfat.dirNextFile rd v c with
    | (.error, v, _) => (.error, v)
    | (.finished, v, _) => (.finished, v)
    | (.file info, v, c) =>
      if pathEqCi name (nameOf info) then (.file info, v)
      else findName rd name fuel v c

/-- The root directory as a file. -/
def rootInfo (v : Exfat.Volume) : Exfat.FileInfo :=
  ⟨[], v.rootCluster, 0, 0, true, false, 0, 0⟩

/-- The loop of `resolve` from a directory on. -/
def resolveLoop (rd : Exfat.Reader) :
    Nat → Exfat.Volume → Path → Exfat.FileInfo → Exfat.NextFile × Exfat.Volume
  | 0, v, _, _ => (.finished, v)
  | fuel + 1, v, path, dir =>
    let component := (path.takeWhile (· ≠ '/')).take exfatNameMax
    let rest := (path.drop component.length).dropWhile (· = '/')
    if dir.isDir = false then (.finished, v)
    else
      let cursor := Exfat.dirCurInit dir.firstCluster dir.contiguous (dir.size ≠ 0) dir.size
      match findName rd component (Exfat.entryBound v) v cursor with
      | (.file info, v) =>
        if rest = [] then (.file info, v)
        else resolveLoop rd fuel v rest info
      | (other, v) => (other, v)

/-- `resolve`. -/
def resolve (rd : Exfat.Reader) (v : Exfat.Volume) (path : Path) : Exfat.NextFile × Exfat.Volume :=
  let path := path.dropWhile (· = '/')
  if path = [] then (.file (rootInfo v), v)
  else resolveLoop rd (path.length + 1) v path (rootInfo v)

/-! ### Directories of the other kind of volume -/

/-- The cursor at the start of a directory. -/
def dirCursor (v : Exfat.Volume) (dir : Exfat.FileInfo) : Exfat.DirCur :=
  if dir.firstCluster = v.rootCluster then
    Exfat.dirCurInit dir.firstCluster false false 0
  else Exfat.dirCurInit dir.firstCluster dir.contiguous (dir.size ≠ 0) dir.size

/-- The loop of `exfat_readdir` for at most `left` files more; an error behind
some file ends it as the end of the directory does. -/
def readdirLoop (rd : Exfat.Reader) :
    Nat → Exfat.Volume → Exfat.DirCur → List Entry → Option (List Entry) × Exfat.Volume
  | 0, v, _, out => (some out, v)
  | left + 1, v, c, out =>
    match Exfat.dirNextFile rd v c with
    | (.error, v, _) => (if out = [] then none else some out, v)
    | (.finished, v, _) => (some out, v)
    | (.file info, v, c) =>
      readdirLoop rd left v c (out ++ [⟨nameOf info, info.isDir, info.size⟩])

inductive Status where
  | ok
  | invalid
  | denied
  | notFound
  | hwFault
deriving DecidableEq, Repr

/-- `exfat_readdir`, with the status the request answers for its results. -/
def exfatReaddir (rd : Exfat.Reader) (v : Exfat.Volume) (path : Path)
    (max : Nat) : Except Status (List Entry) × Exfat.Volume :=
  match resolve rd v path with
  | (.error, v) => (.error .hwFault, v)
  | (.finished, v) => (.error .notFound, v)
  | (.file dir, v) =>
    if dir.isDir = false then (.error .notFound, v)
    else
      match readdirLoop rd max v (dirCursor v dir) [] with
      | (none, v) => (.error .hwFault, v)
      | (some out, v) => (.ok out, v)

/-- The loop of the request over the entries: it ends at the first line that
does not fit. -/
def packExfat (size : Nat) : List Entry → List Char → List Char
  | [], buf => buf
  | entry :: rest, buf =>
    if entry.line.length ≥ size - buf.length then buf
    else packExfat size rest (buf ++ entry.line)

/-! ### The request -/

/-- The volume the server has, and the entries `xents` has room for. -/
inductive Mounted where
  | fat (v : Volume)
  | exfat (rd : Exfat.Reader) (v : Exfat.Volume)

/-- The number of entries `xents` has room for. -/
def maxEntries : Nat := 128

/-- A reply; the words the request does not set are zero. -/
structure Reply where
  status : Status
  arg0 : Nat := 0
  arg1 : Nat := 0
  arg2 : Nat := 0
  payload : List Char := []
deriving DecidableEq, Repr

/-- `handle_readdir`. -/
def handleReaddir (ctx : Context) (mounted : Mounted) (payload : Path) : Reply × Mounted :=
  let path := ipcPath payload
  if validatePath ctx path = false ∨ pathIsSafe path = false then
    ({ status := .denied }, mounted)
  else
    match mounted with
    | .exfat rd v =>
      match exfatReaddir rd v path maxEntries with
      | (.error status, v) => ({ status := status }, .exfat rd v)
      | (.ok entries, v) =>
        ({ status := .ok, payload := packExfat bufSize entries [] }, .exfat rd v)
    | .fat v =>
      match Fat.resolveFullPath v path with
      | (none, v) => ({ status := .notFound }, .fat v)
      | (some found, v) =>
        if Fat.Slot.directory found.slot then
          let (visited, v) := Fat.dirVisit v found.slot.cluster
          ({ status := .ok
             payload := visited.foldl (readdirCb (bufSize - 1)) [] }, .fat v)
        else ({ status := .invalid }, .fat v)

end MainDob.Fs.Readdir
