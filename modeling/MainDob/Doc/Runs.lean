/-
Purpose: The attribute run lists of `libdobdoc/src/runs.c`: runs of bytes that
  share a payload, spliced, split and merged as the text changes.
Trusted boundary: the allocator has the memory that is asked for; an address is
  32 bits wide, so a list whose doubled vector does not fit into the address
  space gets a shorter one than it counts with.
Main exports: Payload, Run, Runlist
-/
import MainDob.Doc.PieceTable

namespace MainDob.Doc.Runs

open PieceTable (word growTo rounds)

/-- What a run may carry: `esize` is its size, and `zero` is what `memset` makes
of it. -/
class Payload (α : Type) where
  esize : Nat
  zero : α

/-- One entry of `len` and of `data`. -/
structure Run (α : Type) where
  len : Nat
  payload : α
deriving DecidableEq, Repr

/-- `runlist`; `runs` holds the entries below `n`. -/
structure Runlist (α : Type) where
  runs : List (Run α)
  cap : Nat
deriving DecidableEq, Repr

variable {α : Type}

/-- `rl_init`. -/
def empty : Runlist α := ⟨[], 0⟩

/-- The size of an entry in the larger one of the two vectors. -/
def entrySize (α : Type) [Payload α] : Nat := max 4 (Payload.esize α)

/-- `rl_reserve`.  `none` is a doubling that does not end, or a size that wraps,
after which the list writes outside its memory. -/
def reserve [Payload α] (rl : Runlist α) (need : Nat) : Option (Runlist α) :=
  if need ≤ rl.cap then some rl
  else do
    let nc ← growTo rounds (if rl.cap ≠ 0 then rl.cap * 2 % word else 8) need
    if nc * entrySize α < word then some { rl with cap := nc } else none

/-- `rl_total`. -/
def total (rl : Runlist α) : Nat :=
  rl.runs.foldl (fun t run => (t + run.len) % word) 0

/-- The loop of `rl_find`, from the run `i` on. -/
def findFrom (pos : Nat) : List (Run α) → Nat → Nat → Nat × Nat
  | [], i, _ => (i, 0)
  | run :: rest, i, acc =>
    if pos < (acc + run.len) % word then (i, pos - acc)
    else findFrom pos rest (i + 1) ((acc + run.len) % word)

/-- `rl_find`: the run of a position, and how far into it; for the end one past
the last run. -/
def find (rl : Runlist α) (pos : Nat) : Nat × Nat := findFrom pos rl.runs 0 0

/-- The run `rl_payload_at` takes for a position: at the end the last one. -/
def runAt (rl : Runlist α) (pos : Nat) : Nat :=
  if (find rl pos).1 ≥ rl.runs.length then rl.runs.length - 1
  else (find rl pos).1

/-- `rl_payload_at`; `none` is a read outside the list. -/
def payloadAt (rl : Runlist α) (pos : Nat) : Option α :=
  rl.runs[runAt rl pos]?.map (·.payload)

/-- `rl_reset_single`. -/
def resetSingle [Payload α] (rl : Runlist α) (total : Nat) (payload : α) :
    Option (Runlist α) := do
  let rl ← reserve rl 1
  return { rl with runs := [⟨total, payload⟩] }

/-- The runs with the run `idx` cut in two after `within` bytes. -/
def cut (runs : List (Run α)) (idx within : Nat) : List (Run α) :=
  runs.take idx ++ (runs[idx]?.toList.flatMap fun run =>
      [⟨within, run.payload⟩, ⟨run.len - within, run.payload⟩]) ++
    runs.drop (idx + 1)

/-- `rl_split_at`: the index of the run that begins at a position, after a cut
where there is none yet. -/
def splitAt [Payload α] (rl : Runlist α) (pos : Nat) : Option (Nat × Runlist α) :=
  let (idx, within) := find rl pos
  if within = 0 then some (idx, rl)
  else do
    let rl ← reserve rl (rl.runs.length + 1)
    return (idx + 1, { rl with runs := cut rl.runs idx within })

/-- One round of `rl_merge`, which compares payloads as a whole, over the runs
written so far, the last one first; `many` says that the list has more than one
run. -/
def mergeStep [DecidableEq α] (many : Bool) (written : List (Run α)) (run : Run α) : List (Run α) :=
  if run.len = 0 ∧ many then written
  else
    match written with
    | [] => [run]
    | last :: before =>
      if last.payload = run.payload then
        { last with len := (last.len + run.len) % word } :: before
      else run :: last :: before

/-- The runs `rl_merge` leaves: one empty run where there is nothing else. -/
def merged [DecidableEq α] (runs : List (Run α)) : List (Run α) :=
  match (runs.foldl (mergeStep (1 < runs.length)) []).reverse with
  | [] => runs.head?.toList.map fun run => { run with len := 0 }
  | kept => kept

/-- `rl_merge`. -/
def merge [DecidableEq α] (rl : Runlist α) : Runlist α :=
  { rl with runs := merged rl.runs }

/-- The run that takes in what is inserted at a position: it inherits the format
to the left. -/
def insertAt (rl : Runlist α) (pos : Nat) : Nat :=
  let (idx, within) := find rl pos
  if within = 0 ∧ idx > 0 then idx - 1
  else if idx ≥ rl.runs.length then rl.runs.length - 1
  else idx

/-- `rl_insert`. -/
def insert [Payload α] (rl : Runlist α) (pos n : Nat) : Option (Runlist α) :=
  if n = 0 then some rl
  else if rl.runs.length = 0 then resetSingle rl n Payload.zero
  else
    some { rl with
      runs := rl.runs.modify (insertAt rl pos) fun run =>
        { run with len := (run.len + n) % word } }

/-- The loop of `rl_delete`, from a run on: `remaining` bytes are to go, the
first of them `within` bytes into the run. -/
def deleteFrom : Nat → Nat → List (Run α) → List (Run α)
  | _, _, [] => []
  | within, remaining, run :: rest =>
    if remaining = 0 then run :: rest
    else
      let avail := run.len - within
      let taken := if avail < remaining then avail else remaining
      let rest := deleteFrom 0 (remaining - taken) rest
      if run.len - taken = 0 then rest
      else { run with len := run.len - taken } :: rest

/-- The runs of `rl_delete` after its loop. -/
def deleted (rl : Runlist α) (pos n : Nat) : List (Run α) :=
  let (idx, within) := find rl pos
  rl.runs.take idx ++ deleteFrom within n (rl.runs.drop idx)

/-- `rl_delete`. -/
def delete [Payload α] [DecidableEq α] (rl : Runlist α) (pos n : Nat) : Option (Runlist α) :=
  if n = 0 then some rl
  else if pos ≥ total rl then some rl
  else
    let n := if (pos + n) % word > total rl then total rl - pos else n
    let rl := merge { rl with runs := deleted rl pos n }
    if rl.runs.length = 0 then resetSingle rl 0 Payload.zero else some rl

/-- The loop of `rl_apply` over the runs from `i0` to before `i1`. -/
def applyRuns (i0 i1 : Nat) (fn : α → α) (runs : List (Run α)) : List (Run α) :=
  runs.mapIdx fun r run =>
    if i0 ≤ r ∧ r < i1 then { run with payload := fn run.payload } else run

/-- `rl_apply`. -/
def apply [Payload α] [DecidableEq α] (rl : Runlist α) (pos n : Nat)
    (fn : α → α) : Option (Runlist α) :=
  if n = 0 then some rl
  else do
    let (i0, rl) ← splitAt rl pos
    let (i1, rl) ← splitAt rl ((pos + n) % word)
    return merge { rl with runs := applyRuns i0 i1 fn rl.runs }

/-- `rl_copy`. -/
def copy [Payload α] (src : Runlist α) : Option (Runlist α) :=
  if src.runs.length = 0 then some empty
  else do
    let dst ← reserve (empty : Runlist α) src.runs.length
    return { dst with runs := src.runs }

end MainDob.Doc.Runs
