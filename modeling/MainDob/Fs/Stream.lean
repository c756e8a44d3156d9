/-
Purpose: The open files of `boot/DobFileSystem/main.c` on a FAT32 mount: the
  buffer, the cursor and the lazily written metadata of an fd, and the requests
  READ, WRITE and SEEK.
Trusted boundary: the volume is mounted; `malloc` succeeds; the buffer of an fd
  is a function from positions to bytes, of which the first 64 KiB or the first
  cluster exist.
Main exports: Fd, Server, fdSeekCursor
-/
import MainDob.Fs.Dir

namespace MainDob.Fs.Fat

/-! ### Constants -/

/-- `DOBFS_MAX_FDS`. -/
def maxFds : Nat := 256

/-- `FD_WP_INTERVAL`. -/
def wpInterval : Nat := 64

/-- `FD_MAX_WAYPOINTS`. -/
def maxWaypoints : Nat := 16

def fatPreallocCount : Nat := 32

def fdFlushRetries : Nat := 5

/-- `FD_READ_BUF_SIZE`, which is also the size of `sector_buf`. -/
def fdReadBufSize : Nat := 65536

/-- The range of `uint32_t`. -/
def word : Nat := 2 ^ 32

/-- Subtraction of `uint32_t`. -/
def sub32 (a b : Nat) : Nat := (a % word + word - b % word) % word

/-! ### Files -/

/-- The flags of OPEN. -/
structure Flags where
  read : Bool
  write : Bool
  create : Bool
  append : Bool
  trunc : Bool
deriving DecidableEq, Repr

/-- `dobfs_fd_t`.  A waypoint is a cluster and its index in the chain; the last
one recorded comes last. -/
structure Fd where
  used : Bool
  owner : Nat
  flags : Flags
  firstCluster : Nat
  dirCluster : Nat
  dirEntryIndex : Nat
  fileSize : Nat
  offset : Nat
  isDir : Bool
  buf : Nat → UInt8
  bufPos : Nat
  bufValid : Nat
  bufDirty : Bool
  bufStartClusterIdx : Nat
  curCluster : Nat
  curClusterIdx : Nat
  chainLen : Nat
  chainLast : Nat
  waypoints : List (Nat × Nat)
  metaDirty : Bool
  truncOldChain : Nat

/-- An fd of zeros. -/
def Fd.zero : Fd where
  used := false
  owner := 0
  flags := ⟨false, false, false, false, false⟩
  firstCluster := 0
  dirCluster := 0
  dirEntryIndex := 0
  fileSize := 0
  offset := 0
  isDir := false
  buf := fun _ => 0
  bufPos := 0
  bufValid := 0
  bufDirty := false
  bufStartClusterIdx := 0
  curCluster := 0
  curClusterIdx := 0
  chainLen := 0
  chainLast := 0
  waypoints := []
  metaDirty := false
  truncOldChain := 0

/-- An fd and the volume it works on. -/
structure Io where
  vol : Volume
  fd : Fd

/-! ### The cursor -/

def fdRecordWaypoint (f : Fd) : Fd :=
  if f.curClusterIdx % wpInterval ≠ 0 then f
  else if maxWaypoints ≤ f.waypoints.length then f
  else if f.waypoints.getLast?.map Prod.snd = some f.curClusterIdx then f
  else { f with waypoints := f.waypoints ++ [(f.curCluster, f.curClusterIdx)] }

/-- The walk of `fd_seek_cursor`. -/
def walkChain : Nat → Volume → Nat → Option Nat × Volume
  | 0, v, cluster => (some cluster, v)
  | steps + 1, v, cluster =>
    let (next, v) := fatRead v cluster
    if next < 2 ∨ fatIsEoc next then (none, v) else walkChain steps v next

/-- Where the walk starts: the last waypoint that is not beyond the target, or
the start of the file, or the cursor where that is nearer. -/
def seekStart (f : Fd) (target : Nat) : Nat × Nat :=
  let start := (f.waypoints.reverse.find? (fun point => point.2 ≤ target)).getD (f.firstCluster, 0)
  if 2 ≤ f.curCluster ∧ f.curClusterIdx ≤ target ∧ start.2 ≤ f.curClusterIdx then
    (f.curCluster, f.curClusterIdx)
  else start

/-- The cursor comes to a cluster. -/
def moveCursor (f : Fd) (cluster index : Nat) : Fd :=
  fdRecordWaypoint { f with curCluster := cluster, curClusterIdx := index }

def fdSeekCursor (io : Io) (target : Nat) : Bool × Io :=
  let f := io.fd
  if f.firstCluster < 2 then (false, io)
  else if 2 ≤ f.curCluster ∧ f.curClusterIdx = target then (true, io)
  else if 2 ≤ f.curCluster ∧ f.curClusterIdx + 1 = target then
    let (next, v) := fatRead io.vol f.curCluster
    if next < 2 ∨ fatIsEoc next then (false, ⟨v, f⟩)
    else (true, ⟨v, moveCursor f next target⟩)
  else
    let start := seekStart f target
    match walkChain (target - start.2) io.vol start.1 with
    | (none, v) => (false, ⟨v, f⟩)
    | (some cluster, v) => (true, ⟨v, moveCursor f cluster target⟩)

/-! ### Room for a write -/

/-- Clusters for a number of bytes, in `uint32_t`. -/
def clustersFor (v : Volume) (bytes : Nat) : Nat :=
  (bytes + v.bytesPerCluster - 1) % word / v.bytesPerCluster

/-- The walk that finds the length and the last cluster of a chain. -/
def measureLoop : Nat → Volume → Nat → Nat → (Nat × Nat) × Volume
  | 0, v, cluster, len => ((cluster, len), v)
  | fuel + 1, v, cluster, len =>
    let (next, v) := fatRead v cluster
    if fatIsEoc next then ((cluster, len), v)
    else
      let (next, v) := fatRead v cluster
      measureLoop fuel v next (len + 1)

/-- The allocation of a batch, and a second one of just what is needed. -/
def allocRoom (v : Volume) (prev count : Nat) : Batch × Volume :=
  let batch := max count fatPreallocCount
  match fatAllocBatch v prev batch with
  | (got, v) =>
    if got.firstNew = 0 ∧ count < batch then fatAllocBatch v prev count
    else (got, v)

/-- The length of the chain of the fd is known.  Every cluster of a walk that
comes to an end, but the last, has its own entry in the table. -/
def measureChain (io : Io) : Io :=
  if io.fd.chainLen = 0 then
    let ((last, len), v) := measureLoop
      (io.vol.totalClusters + 3 + io.vol.fatSizeSectors * entriesPerSector) io.vol
      io.fd.firstCluster 1
    ⟨v, { io.fd with chainLen := len, chainLast := last }⟩
  else io

def fdEnsureClusters (io : Io) (endOffset : Nat) : Bool × Io :=
  if endOffset = 0 then (true, io)
  else
    let needed := clustersFor io.vol endOffset
    if io.fd.firstCluster < 2 then
      match allocRoom io.vol 0 needed with
      | (got, v) =>
        if got.firstNew = 0 then (false, ⟨v, io.fd⟩)
        else
          (decide (needed ≤ got.allocated), ⟨v, { io.fd with
            firstCluster := got.firstNew
            curCluster := got.firstNew
            curClusterIdx := 0
            metaDirty := true
            chainLen := got.allocated
            chainLast := got.last }⟩)
    else
      let io := measureChain io
      if needed ≤ io.fd.chainLen then (true, io)
      else
        match allocRoom io.vol io.fd.chainLast (needed - io.fd.chainLen) with
        | (got, v) =>
          if got.firstNew = 0 then (false, ⟨v, io.fd⟩)
          else
            (decide (needed ≤ io.fd.chainLen + got.allocated), ⟨v, { io.fd with
              chainLast := got.last
              chainLen := io.fd.chainLen + got.allocated }⟩)

/-! ### The buffer -/

/-- The attempts of `fd_flush_write` to store a cluster. -/
def storeRetries : Nat → Volume → Nat → (Nat → UInt8) → Bool × Volume
  | 0, v, _, _ => (false, v)
  | tries + 1, v, cluster, bytes =>
    match writeCluster v cluster bytes with
    | (true, v) => (true, v)
    | (false, v) => storeRetries tries v cluster bytes

/-- What a flush stores: the buffer, merged into the cluster where it does not
fill it. -/
def flushImage (io : Io) : Nat → UInt8 :=
  if io.fd.bufPos < io.vol.bytesPerCluster then
    fun i => if i < io.fd.bufPos then io.fd.buf i
      else io.vol.data io.fd.curCluster i
  else io.fd.buf

def fdFlushWrite (io : Io) : Bool × Io :=
  if !io.fd.bufDirty || io.fd.bufPos == 0 then (true, io)
  else
    match fdSeekCursor io
        (sub32 io.fd.offset io.fd.bufPos / io.vol.bytesPerCluster) with
    | (false, io) => (false, io)
    | (true, io) =>
      match storeRetries fdFlushRetries io.vol io.fd.curCluster
          (flushImage io) with
      | (false, v) => (false, ⟨v, io.fd⟩)
      | (true, v) => (true, ⟨v, { io.fd with
          bufDirty := false
          bufPos := 0
          bufValid := 0
          bufStartClusterIdx := 0 }⟩)

/-- How many clusters from `prev` on follow each other on the disk. -/
def runLoop (want : Nat) : Nat → Volume → Nat → Nat → Nat × Volume
  | 0, v, _, count => (count, v)
  | fuel + 1, v, prev, count =>
    if count < want then
      let (next, v) := fatRead v prev
      if fatIsEoc next ∨ next ≠ prev + 1 then (count, v)
      else runLoop want fuel v next (count + 1)
    else (count, v)

/-- The clusters `fd_fill_read` asks for. -/
def wantClusters (io : Io) (index : Nat) : Nat :=
  let bpc := io.vol.bytesPerCluster
  let start := index * bpc % word
  let remaining := if start < io.fd.fileSize then (io.fd.fileSize - start) % word
    else 0
  min (max 1 (fdReadBufSize / bpc)) (clustersFor io.vol remaining)

def fdFillRead (io : Io) : Bool × Io :=
  let bpc := io.vol.bytesPerCluster
  let index := io.fd.offset % word / bpc
  match fdSeekCursor io index with
  | (false, io) => (false, io)
  | (true, io) =>
    let want := wantClusters io index
    if want = 0 then (false, ⟨io.vol, { io.fd with bufValid := 0 }⟩)
    else
      let first := io.fd.curCluster
      let (count, v) := runLoop want want io.vol first 1
      let start := index * bpc % word
      let spanEnd := (start + count * bpc) % word
      let spanEnd := if io.fd.fileSize < spanEnd then io.fd.fileSize else spanEnd
      (true, ⟨v, { io.fd with
        buf := fun i => if i < count * bpc then v.data (first + i / bpc) (i % bpc)
          else io.fd.buf i
        bufValid := sub32 spanEnd start
        bufPos := sub32 io.fd.offset start
        bufStartClusterIdx := index }⟩)

/-! ### The server -/

inductive Status where
  | ok
  | invalid
  | denied
  | notFound
  | noMemory
  | internal
deriving DecidableEq, Repr

/-- The status, `arg0` and the payload of a reply. -/
structure Reply where
  status : Status
  arg0 : Nat
  payload : List UInt8
deriving DecidableEq, Repr

def Reply.error (status : Status) : Reply := ⟨status, 0, []⟩

/-- The volume, the table of open files and what the server asks the kernel. -/
structure Server where
  ctx : Context
  alive : Nat → Bool
  vol : Volume
  fds : Nat → Fd

/-- An fd is replaced, with the volume it has worked on. -/
def Server.put (s : Server) (fd : Nat) (io : Io) : Server :=
  { s with vol := io.vol, fds := Function.update s.fds fd io.fd }

def Server.io (s : Server) (fd : Nat) : Io := ⟨s.vol, s.fds fd⟩

/-! ### OPEN -/

/-- The fd of a file, before a truncation. -/
def openedFd (f : Fd) (flags : Flags) (entry : Found) : Fd :=
  { f with
    flags := flags
    firstCluster := entry.slot.cluster
    dirCluster := entry.cluster
    dirEntryIndex := entry.index
    fileSize := entry.slot.size
    isDir := Slot.directory entry.slot
    offset := if flags.append then entry.slot.size else 0
    bufPos := 0
    bufValid := 0
    bufDirty := false
    bufStartClusterIdx := 0
    curCluster := entry.slot.cluster
    curClusterIdx := 0
    chainLen := 0
    chainLast := 0
    waypoints := []
    metaDirty := false
    truncOldChain := 0 }

/-- The non-destructive truncation of OPEN. -/
def truncFd (f : Fd) : Fd :=
  if f.flags.trunc ∧ f.isDir = false ∧ 2 ≤ f.firstCluster then
    { f with
      truncOldChain := f.firstCluster
      firstCluster := 0
      fileSize := 0
      offset := 0
      curCluster := 0
      curClusterIdx := 0
      chainLen := 0
      chainLast := 0
      metaDirty := true }
  else f

/-! ### READ -/

/-- The check of the fd every request on an open file makes. -/
def checkFd (s : Server) (sender fd : Nat) : Option Status :=
  if maxFds ≤ fd ∨ (s.fds fd).used = false then some .invalid
  else if (s.fds fd).owner ≠ sender then some .denied
  else none

/-- The cursor is in the span of the file that the buffer holds. -/
def inSpan (io : Io) : Bool :=
  let start := io.fd.bufStartClusterIdx * io.vol.bytesPerCluster % word
  0 < io.fd.bufValid && start ≤ io.fd.offset && io.fd.offset < (start + io.fd.bufValid) % word

/-- The loop of `handle_read`; `size` counts what is still to be read. -/
def readLoop : Nat → Io → Nat → List UInt8 × Io
  | 0, io, _ => ([], io)
  | fuel + 1, io, size =>
    if size = 0 then ([], io)
    else
      match (if inSpan io then (true, io) else fdFillRead io) with
      | (false, io) => ([], io)
      | (true, io) =>
        let start := io.fd.bufStartClusterIdx * io.vol.bytesPerCluster % word
        let offInBuf := sub32 io.fd.offset start
        let toCopy := min size (sub32 io.fd.bufValid offInBuf)
        if toCopy = 0 then ([], io)
        else
          let bytes := (List.range toCopy).map fun i => io.fd.buf (offInBuf + i)
          let (rest, last) := readLoop fuel ⟨io.vol, { io.fd with offset := io.fd.offset + toCopy }⟩
            (size - toCopy)
          (bytes ++ rest, last)

/-- What a read is cut to: the end of the file and the size of `sector_buf`. -/
def readSize (f : Fd) (size : Nat) : Nat :=
  min (min size (f.fileSize - f.offset)) fdReadBufSize

def handleRead (s : Server) (sender fd size : Nat) : Reply × Server :=
  match checkFd s sender fd with
  | some status => (.error status, s)
  | none =>
    let f := s.fds fd
    if !f.flags.read then (.error .denied, s)
    else if f.fileSize ≤ f.offset then (⟨.ok, 0, []⟩, s)
    else
      let size := readSize f size
      let (bytes, io) := readLoop (size + 1) (s.io fd) size
      (⟨.ok, bytes.length, bytes⟩, s.put fd io)

/-! ### WRITE -/

/-- Bytes are copied into the buffer. -/
def stage (f : Fd) (bytes : List UInt8) : Fd :=
  { f with
    buf := fun i => if f.bufPos ≤ i ∧ i < f.bufPos + bytes.length then
        bytes.getD (i - f.bufPos) 0
      else f.buf i
    bufPos := f.bufPos + bytes.length
    bufDirty := true
    offset := f.offset + bytes.length }

/-- The loop of `handle_write`. -/
def writeLoop : Nat → Io → List UInt8 → Bool × Io
  | 0, io, _ => (true, io)
  | fuel + 1, io, src =>
    if src = [] then (true, io)
    else
      let chunk := min src.length (sub32 io.vol.bytesPerCluster io.fd.bufPos)
      let io : Io := ⟨io.vol, stage io.fd (src.take chunk)⟩
      if io.vol.bytesPerCluster ≤ io.fd.bufPos then
        match fdFlushWrite io with
        | (false, io) => (false, io)
        | (true, io) =>
          writeLoop fuel (fdSeekCursor io (io.fd.curClusterIdx + 1)).2 (src.drop chunk)
      else writeLoop fuel io (src.drop chunk)

/-- A buffer without unsaved bytes becomes the staging area. -/
def startStaging (f : Fd) : Fd :=
  if f.bufDirty then f
  else { f with bufValid := 0, bufPos := 0, bufStartClusterIdx := 0 }

/-- A cursor that points nowhere is set. -/
def positionCursor (io : Io) : Io :=
  if io.fd.curCluster < 2 ∧ 2 ≤ io.fd.firstCluster then
    (fdSeekCursor io (io.fd.offset % word / io.vol.bytesPerCluster)).2
  else io

/-- The file has grown to the cursor. -/
def growSize (f : Fd) : Fd :=
  if f.fileSize < f.offset then { f with fileSize := f.offset, metaDirty := true }
  else f

/-- WRITE behind its checks: the status and the state of the file. -/
def writeBytes (io : Io) (src : List UInt8) : Status × Io :=
  let io : Io := ⟨io.vol, startStaging io.fd⟩
  match fdEnsureClusters io ((io.fd.offset + src.length) % word) with
  | (false, io) => (.noMemory, io)
  | (true, io) =>
    match writeLoop (2 * src.length + 1) (positionCursor io) src with
    | (false, io) => (.internal, io)
    | (true, io) => (.ok, ⟨io.vol, growSize io.fd⟩)

def handleWrite (s : Server) (sender fd : Nat) (payload : List UInt8) : Reply × Server :=
  match checkFd s sender fd with
  | some status => (.error status, s)
  | none =>
    if !(s.fds fd).flags.write then (.error .denied, s)
    else if payload = [] then (⟨.ok, 0, []⟩, s)
    else
      let src := payload.take fdReadBufSize
      let (status, io) := writeBytes (s.io fd) src
      (⟨status, if status = .ok then src.length else 0, []⟩, s.put fd io)

/-! ### SEEK -/

inductive Whence where
  | set
  | cur
  | fromEnd
  | other
deriving DecidableEq, Repr

/-- Two words as a signed number of 64 bits, wrapped as the compiler does. -/
def signed64 (n : Int) : Int := n.bmod (2 ^ 64)

/-- The position before the checks. -/
def seekBase (offset fileSize : Nat) (whence : Whence) (delta : Int) :
    Option Int :=
  match whence with
  | .set => some delta
  | .cur => some (signed64 (offset + delta))
  | .fromEnd => some (signed64 (fileSize + delta))
  | .other => none

/-- The position a seek asks for, or none where it is refused. -/
def seekTarget (write : Bool) (offset fileSize : Nat) (whence : Whence)
    (delta : Int) : Option Nat :=
  match seekBase offset fileSize whence delta with
  | none => none
  | some position =>
    if position < 0 then none
    else
      let position :=
        if !write && fileSize < position.toNat then fileSize else position.toNat
      if word - 1 < position then none else some position

/-- The fd at a new position. -/
def moveTo (v : Volume) (f : Fd) (position : Nat) : Fd :=
  let start := f.bufStartClusterIdx * v.bytesPerCluster % word
  if f.bufValid = 0 ∨ position < start ∨ (start + f.bufValid) % word ≤ position then
    { f with offset := position, bufValid := 0, bufPos := 0 }
  else { f with offset := position }

/-- SEEK behind its checks: the buffer goes to the disk before the cursor
moves. -/
def seekFd (io : Io) (whence : Whence) (offHi offLo : Nat) : Status × Io :=
  match (if io.fd.bufDirty then fdFlushWrite io else (true, io)) with
  | (false, io) => (.internal, io)
  | (true, io) =>
    let f := { io.fd with bufDirty := false }
    match seekTarget f.flags.write f.offset f.fileSize whence
        (signed64 (offHi * word + offLo)) with
    | none => (.invalid, ⟨io.vol, f⟩)
    | some position => (.ok, ⟨io.vol, moveTo io.vol f position⟩)

def handleSeek (s : Server) (sender fd : Nat) (whence : Whence)
    (offHi offLo : Nat) : Reply × Server :=
  match checkFd s sender fd with
  | some status => (.error status, s)
  | none =>
    let (status, io) := seekFd (s.io fd) whence offHi offLo
    (⟨status, if status = .ok then io.fd.offset else 0, []⟩, s.put fd io)

end MainDob.Fs.Fat
