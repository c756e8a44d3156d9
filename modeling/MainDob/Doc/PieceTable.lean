/-
Purpose: The piece table of `libdobdoc/src/piecetable.c`: the text of a document
  as windows into an original buffer and an append-only one, with its edits, its
  reads and its undo snapshots.
Trusted boundary: an address is 32 bits wide, so a vector that exists has fewer
  than 2^32 / 12 entries; what a failed call leaves in memory it still owns but
  does not count is not read again.
Main exports: Source, Piece, Table
-/
import Mathlib.Algebra.Ring.Nat
import MainDob.Lib.Runs

namespace MainDob.Doc.PieceTable

/-- The values of a `uint32_t`. -/
def word : Nat := 2 ^ 32

/-- `sizeof(piece)`. -/
def pieceSize : Nat := 12

/-- `src` of a piece: 0 is the original buffer, 1 the append buffer. -/
inductive Source where
  | orig
  | add
deriving DecidableEq, Repr

/-- `piece`. -/
structure Piece where
  src : Source
  off : Nat
  len : Nat
deriving DecidableEq, Repr

/-- `piecetable`.  `pc` holds the entries below `npc`, and `room` is not in the
source: it is how many entries the memory behind `pc` has, 0 for a null
pointer. -/
structure Table where
  orig : List UInt8
  add : List UInt8
  addCap : Nat
  pc : List Piece
  cap : Nat
  room : Nat
  total : Nat
deriving DecidableEq

/-- `pt_init`. -/
def empty : Table := ⟨[], [], 0, [], 0, 0, 0⟩

/-- `dd_result`, as far as the piece table returns it. -/
inductive Result where
  | ok
  | range
  | noMem
deriving DecidableEq, Repr

/-- `pc_base`. -/
def Table.base (pt : Table) : Source → List UInt8
  | .orig => pt.orig
  | .add => pt.add

/-- The loop of `pt_find`, from the entry `i` on. -/
def findFrom (pos : Nat) : List Piece → Nat → Nat → Nat × Nat
  | [], i, _ => (i, 0)
  | piece :: rest, i, acc =>
    if pos < (acc + piece.len) % word then (i, pos - acc)
    else findFrom pos rest (i + 1) ((acc + piece.len) % word)

/-- `pt_find`: the piece that covers a position, and how far into it; for the
end of the text one past the last piece. -/
def find (pc : List Piece) (pos : Nat) : Nat × Nat := findFrom pos pc 0 0

/-- The vector's entries, where there is memory behind them. -/
def Table.entries (pt : Table) : Option (List Piece) :=
  if pt.pc.length ≤ pt.room then some pt.pc else none

/-- `n` bytes of a buffer, where they are all inside it. -/
def bytesAt (buffer : List UInt8) (off n : Nat) : Option (List UInt8) :=
  if off + n ≤ buffer.length then some ((buffer.drop off).take n) else none

/-- `pt_byte_at`: a byte, or -1 past the end.  `none` is a read outside a
buffer. -/
def byteAt (pt : Table) (pos : Nat) : Option Int :=
  if pos ≥ pt.total then some (-1)
  else do
    let pc ← pt.entries
    let (idx, within) := find pc pos
    let piece ← pc[idx]?
    let byte ← (pt.base piece.src)[piece.off + within]?
    return (byte.toNat : Int)

/-- The loop of `pt_get_text`, with `n` bytes still to copy. -/
def copyFrom (pt : Table) : List Piece → Nat → Nat → Option (List UInt8)
  | [], _, _ => some []
  | piece :: rest, within, n =>
    if n = 0 then some []
    else do
      let avail := piece.len - within
      let taken := if avail < n then avail else n
      let bytes ← bytesAt (pt.base piece.src) (piece.off + within) taken
      let more ← copyFrom pt rest 0 (n - taken)
      return bytes ++ more

/-- `pt_get_text`: the bytes it leaves in the caller's buffer.  `none` is a read
outside a buffer. -/
def getText (pt : Table) (pos n cap : Nat) : Option (List UInt8) :=
  if pos > pt.total then some []
  else do
    let n := if (pos + n) % word > pt.total then pt.total - pos else n
    let n := if n > cap then cap else n
    let pc ← pt.entries
    let (idx, within) := find pc pos
    copyFrom pt (pc.drop idx) within n

/-- The doubling loop of `pc_reserve` and `add_append`, `fuel` rounds of it. -/
def growTo : Nat → Nat → Nat → Option Nat
  | 0, _, _ => none
  | fuel + 1, nc, need =>
    if nc < need then growTo fuel (nc * 2 % word) need else some nc

/-- Enough rounds: after 32 doublings `nc` is 0, and the loop goes on for
ever. -/
def rounds : Nat := 33

/-- What an attempt to get more memory comes to.  With `wild` it does not
return, or has gone on outside its memory. -/
inductive Attempt where
  | ok (pt : Table)
  | noMem
  | wild

/-- `pc_reserve`; `allocated` says whether the allocator has the memory. -/
def pcReserve (pt : Table) (need : Nat) (allocated : Bool) : Attempt :=
  if need ≤ pt.cap then .ok pt
  else
    match growTo rounds (if pt.cap ≠ 0 then pt.cap * 2 % word else 16) need with
    | none => .wild
    | some nc =>
      if allocated then
        .ok { pt with cap := nc, room := nc * pieceSize % word / pieceSize }
      else .noMem

/-- `add_append`. -/
def addAppend (pt : Table) (data : List UInt8) (allocated : Bool) : Attempt :=
  let store (pt : Table) : Attempt :=
    if pt.add.length + data.length ≤ pt.addCap then
      .ok { pt with add := pt.add ++ data }
    else .wild
  let need := (pt.add.length + data.length) % word
  if need > pt.addCap then
    match growTo rounds
        (if pt.addCap ≠ 0 then pt.addCap * 2 % word else 256) need with
    | none => .wild
    | some nc => if allocated then store { pt with addCap := nc } else .noMem
  else store pt

/-- A piece of the append buffer that ends where the new bytes begin. -/
def Piece.continues (piece : Piece) (addOff : Nat) : Bool :=
  piece.src = .add ∧ (piece.off + piece.len) % word = addOff

/-- The piece the fast path makes longer, if it is taken. -/
def fastPath (pt : Table) (pos idx within addOff : Nat) : Option Nat :=
  if 0 < idx ∧ within = 0 ∧ (pt.pc[idx - 1]?).any (·.continues addOff) then
    some (idx - 1)
  else if pos = pt.total ∧ 0 < pt.pc.length ∧
      (pt.pc[pt.pc.length - 1]?).any (·.continues addOff) then
    some (pt.pc.length - 1)
  else none

/-- The vector with a new piece in it: at the end, at a boundary, or inside the
piece `idx`. -/
def spliced (pc : List Piece) (idx within : Nat) (newp : Piece) : List Piece :=
  match pc[idx]? with
  | none => pc ++ [newp]
  | some old =>
    if within = 0 then pc.take idx ++ newp :: pc.drop idx
    else
      pc.take idx ++ ⟨old.src, old.off, within⟩ :: newp ::
        ⟨old.src, old.off + within, old.len - within⟩ :: pc.drop (idx + 1)

/-- The part of `pt_insert` after the bytes are in the append buffer.  It
reserves `npc + 1` entries, or `npc + 2` for a split. -/
def insertPiece (pt : Table) (pos addOff n : Nat) (allocated : Bool) :
    Option (Result × Table) := do
  let pc ← pt.entries
  let (idx, within) := find pc pos
  match fastPath pt pos idx within addOff with
  | some i =>
    some (.ok, { pt with
      pc := pc.modify i fun piece => { piece with len := piece.len + n }
      total := (pt.total + n) % word })
  | none =>
    let np := spliced pc idx within ⟨.add, addOff, n⟩
    match pcReserve pt np.length allocated with
    | .wild => none
    | .noMem => some (.noMem, pt)
    | .ok pt =>
      if np.length ≤ pt.room then
        some (.ok, { pt with pc := np, total := (pt.total + n) % word })
      else none

/-- `pt_insert`; `none` is a call that goes wild. -/
def insert (pt : Table) (pos : Nat) (data : List UInt8)
    (grown reserved : Bool) : Option (Result × Table) :=
  if pos > pt.total then some (.range, pt)
  else if data.length = 0 then some (.ok, pt)
  else
    match addAppend pt data grown with
    | .wild => none
    | .noMem => some (.noMem, pt)
    | .ok grownTable =>
      insertPiece grownTable pos pt.add.length data.length reserved

/-- The vector `pt_delete` builds: what is before the piece `i0` and the first
`w0` bytes of that, then what is left of the piece `i1` after `w1` bytes, and
the rest. -/
def joined (pc : List Piece) (i0 w0 i1 w1 : Nat) : List Piece :=
  pc.take i0 ++
    (match pc[i0]? with
      | some piece => if w0 > 0 then [⟨piece.src, piece.off, w0⟩] else []
      | none => []) ++
    (match pc[i1]? with
      | some piece =>
        if w1 > 0 then [⟨piece.src, piece.off + w1, piece.len - w1⟩] else []
      | none => []) ++
    pc.drop (i1 + if w1 > 0 then 1 else 0)

/-- `pt_delete`; `none` is a call that goes wild. -/
def delete (pt : Table) (pos n : Nat) (allocated : Bool) : Option (Result × Table) :=
  if pos > pt.total then some (.range, pt)
  else if n = 0 then some (.ok, pt)
  else do
    let n := if (pos + n) % word > pt.total then pt.total - pos else n
    let pc ← pt.entries
    let (i0, w0) := find pc pos
    let (i1, w1) := find pc ((pos + n) % word)
    let cap := pc.length + 2
    let room := cap * pieceSize % word / pieceSize
    if allocated then
      let np := joined pc i0 w0 i1 w1
      if np.length ≤ room then
        some (.ok, { pt with
          pc := np
          cap := cap
          room := room
          total := (pt.total + word - n) % word })
      else none
    else some (.noMem, pt)

/-- `pt_set_original`: the old text is gone also where the call fails. -/
def setOriginal (pt : Table) (data : List UInt8) (copied reserved : Bool) :
    Option (Result × Table) :=
  let pt := { pt with orig := [], pc := [], total := 0 }
  if data.length = 0 then some (.ok, pt)
  else if copied then
    let pt := { pt with orig := data }
    match pcReserve pt 1 reserved with
    | .wild => none
    | .noMem => some (.noMem, pt)
    | .ok pt =>
      if 1 ≤ pt.room then
        some (.ok, { pt with
          pc := [⟨.orig, 0, data.length⟩]
          total := data.length })
      else none
  else some (.noMem, pt)

/-- What `pt_snapshot` hands out.  `orig` is not in the source: it is the
original buffer at that time. -/
structure Snapshot where
  pc : List Piece
  total : Nat
  orig : List UInt8
deriving DecidableEq

/-- `pt_snapshot`; `none` is a read of a vector that is not there. -/
def snapshot (pt : Table) (allocated : Bool) :
    Option (Result × Option Snapshot) := do
  let pc ← pt.entries
  if pc.length = 0 ∨ allocated then
    return (.ok, some ⟨pc, pt.total, pt.orig⟩)
  else return (.noMem, none)

/-- `pt_restore`: it counts the entries also where there is no memory for
them. -/
def restore (pt : Table) (snap : Snapshot) (allocated : Bool) : Table :=
  { pt with
    pc := snap.pc
    cap := snap.pc.length
    room := if allocated then snap.pc.length * pieceSize % word / pieceSize
      else 0
    total := snap.total }

/-- Bytes a caller can hand over with their length in a `uint32_t`. -/
abbrev Block := { bytes : List UInt8 // bytes.length < word }

/-- The calls, with what the allocator answers. -/
inductive Call where
  | setOriginal (data : Block) (copied reserved : Bool)
  | insert (pos : UInt32) (data : Block) (grown reserved : Bool)
  | delete (pos n : UInt32) (allocated : Bool)
  | snapshot (allocated : Bool)
  | restore (index : Nat) (allocated : Bool)
deriving DecidableEq

/-- A table and the snapshots its user has taken, in order. -/
structure Session where
  table : Table
  snapshots : List Snapshot
deriving DecidableEq

/-- A table just set up. -/
def initial : Session := ⟨empty, []⟩

/-- One call.  `none` is a call that goes wild, or a restore of a snapshot the
user does not have. -/
def exec (s : Session) : Call → Option (Result × Session)
  | .setOriginal data copied reserved =>
    (setOriginal s.table data.val copied reserved).map fun (result, table) =>
      (result, { s with table := table })
  | .insert pos data grown reserved =>
    (insert s.table pos.toNat data.val grown reserved).map
      fun (result, table) => (result, { s with table := table })
  | .delete pos n allocated =>
    (delete s.table pos.toNat n.toNat allocated).map fun (result, table) =>
      (result, { s with table := table })
  | .snapshot allocated =>
    (snapshot s.table allocated).map fun (result, taken) =>
      (result, { s with snapshots := s.snapshots ++ taken.toList })
  | .restore index allocated =>
    s.snapshots[index]?.map fun snap =>
      (.ok, { s with table := restore s.table snap allocated })

end MainDob.Doc.PieceTable
