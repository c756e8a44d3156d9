/-
Purpose: The slot table of kernel/krt/handle_table.c: objects under small ids,
  a generation for each slot, and the free ids kept as a stack, as a ring or
  found by a rotating cursor, by the reuse policy of the table.
Trusted boundary: each function holds the table's lock for its whole body, so a
  call is one step; the arrays exist once the table is initialised
Main exports: Reuse, HandleTable, HandleRef
-/
import Mathlib.Logic.Function.Basic
import MainDob.Lib.Runs

namespace MainDob.Kernel.HandleTable

open Function (update)
open Lib

/-- `ht_reuse_t`. -/
inductive Reuse where
  | lifo
  | fifo
  | monotonic
deriving Repr, DecidableEq

/-- A `handle_table_t` without its lock; `none` in a slot is `NULL`. -/
structure Table (α : Type) where
  slots : Nat → Option α
  generation : Nat → Nat
  freelist : Nat → Nat
  freeHead : Nat
  freeTail : Nat
  freeCount : Nat
  nextScan : Nat
  capacity : Nat
  reuse : Reuse

/-- A `handle_ref_t`. -/
structure HandleRef where
  id : Nat
  gen : Nat
deriving Repr, DecidableEq

variable {α : Type}

/-- The number of values of a `uint32_t`. -/
def wordSize : Nat := 4294967296

/-- `in_range`. -/
def inRange (t : Table α) (id : Nat) : Prop := 0 < id ∧ id < t.capacity

instance (t : Table α) (id : Nat) : Decidable (inRange t id) :=
  inferInstanceAs (Decidable (_ ∧ _))

/-- How `handle_table_init` fills the free list. -/
def initialFreelist (capacity : Nat) : Reuse → Nat → Nat
  | .fifo, i => if i + 1 < capacity then i + 1 else 0
  | .lifo, i => if i + 1 < capacity then capacity - (i + 1) else 0
  | .monotonic, _ => 0

/-- `handle_table_init`, where there is memory for the arrays. -/
def handleTableInit (α : Type) (capacity : Nat) (reuse : Reuse) : Table α where
  slots _ := none
  generation _ := 0
  freelist := initialFreelist capacity reuse
  freeHead := 0
  freeTail := capacity - 1
  freeCount := capacity - 1
  nextScan := 1
  capacity := capacity
  reuse := reuse

/-- `id_take_fifo`. -/
def idTakeFifo (t : Table α) : Nat × Table α :=
  (t.freelist t.freeHead, { t with freeHead := (t.freeHead + 1) % t.capacity })

/-- `id_take_lifo`. -/
def idTakeLifo (t : Table α) : Nat × Table α :=
  (t.freelist (t.freeCount - 1), t)

/-- `(id + 1u >= t->capacity) ? 1u : id + 1u`. -/
def nextId (t : Table α) (id : Nat) : Nat :=
  if t.capacity ≤ id + 1 then 1 else id + 1

/-- The loop of `id_take_monotonic`, with the turns that are left. -/
def scanFrom (t : Table α) : Nat → Nat → Nat × Table α
  | 0, _ => (0, t)
  | turns + 1, start =>
    let id := if start = 0 then 1 else start
    if (t.slots id).isNone then (id, { t with nextScan := nextId t id })
    else scanFrom t turns (nextId t id)

/-- `id_take_monotonic`. -/
def idTakeMonotonic (t : Table α) : Nat × Table α :=
  scanFrom t (t.capacity - 1) t.nextScan

/-- The id the policy of the table takes. -/
def idTake (t : Table α) : Nat × Table α :=
  match t.reuse with
  | .monotonic => idTakeMonotonic t
  | .fifo => idTakeFifo t
  | .lifo => idTakeLifo t

/-- `id_return_fifo`. -/
def idReturnFifo (t : Table α) (id : Nat) : Table α :=
  { t with
    freelist := update t.freelist t.freeTail id
    freeTail := (t.freeTail + 1) % t.capacity }

/-- `id_return_lifo`. -/
def idReturnLifo (t : Table α) (id : Nat) : Table α :=
  { t with freelist := update t.freelist t.freeCount id }

/-- How the policy of the table takes an id back. -/
def idReturn (t : Table α) (id : Nat) : Table α :=
  match t.reuse with
  | .fifo => idReturnFifo t id
  | .lifo => idReturnLifo t id
  | .monotonic => t

/-- `slot_publish`. -/
def slotPublish (t : Table α) (id : Nat) (obj : α) : Table α :=
  { t with
    slots := update t.slots id (some obj)
    generation :=
      update t.generation id ((t.generation id + 1) % wordSize) }

/-- `handle_table_insert`. -/
def handleTableInsert (t : Table α) (obj : α) : Table α × HandleRef :=
  if t.freeCount = 0 then (t, ⟨0, 0⟩)
  else
    let (id, t) := idTake t
    let t := slotPublish { t with freeCount := t.freeCount - 1 } id obj
    (t, ⟨id, t.generation id⟩)

/-- `handle_table_remove`. -/
def handleTableRemove (t : Table α) (id : Nat) : Table α × Option α :=
  if inRange t id then
    match t.slots id with
    | none => (t, none)
    | some obj =>
      let t := idReturn { t with slots := update t.slots id none } id
      ({ t with freeCount := t.freeCount + 1 }, some obj)
  else (t, none)

/-- `handle_table_get`. -/
def handleTableGet (t : Table α) (id : Nat) : Option α :=
  if inRange t id then t.slots id else none

/-- `handle_table_get_checked`. -/
def handleTableGetChecked (t : Table α) (ref : HandleRef) : Option α :=
  if inRange t ref.id ∧ t.generation ref.id = ref.gen then t.slots ref.id
  else none

/-! ### Runs -/

/-- A table and what its calls have said: the handles given out with their
objects, the handles whose object was removed, and how often an object was
inserted under each id. -/
structure Account (α : Type) where
  table : Table α
  held : List (HandleRef × α)
  gone : List HandleRef
  inserts : Nat → Nat

/-- The calls that change a table. -/
inductive Call (α : Type) where
  | insert (obj : α)
  | remove (id : Nat)
deriving Repr, DecidableEq

/-- Insert an object; a handle with id 0 is a refusal. -/
def Account.insert (a : Account α) (obj : α) : Account α :=
  let (table, ref) := handleTableInsert a.table obj
  if ref.id = 0 then { a with table := table }
  else
    { a with
      table := table
      held := (ref, obj) :: a.held
      inserts := update a.inserts ref.id (a.inserts ref.id + 1) }

/-- Remove an id; the handles that were given out for it are gone when there was
an object. -/
def Account.remove (a : Account α) (id : Nat) : Account α :=
  match handleTableRemove a.table id with
  | (table, none) => { a with table := table }
  | (table, some _) =>
    { a with
      table := table
      held := a.held.filter fun entry => entry.1.id != id
      gone := ((a.held.filter fun entry => entry.1.id == id).map Prod.fst) ++
        a.gone }

/-- The state a call leaves. -/
def exec (a : Account α) : Call α → Account α
  | .insert obj => a.insert obj
  | .remove id => a.remove id

/-- A call takes an account to the next one. -/
def step (a : Account α) (call : Call α) (b : Account α) : Prop :=
  exec a call = b

/-- A table that was just initialised. -/
def initial (α : Type) (capacity : Nat) (reuse : Reuse) : Account α :=
  ⟨handleTableInit α capacity reuse, [], [], fun _ => 0⟩

end MainDob.Kernel.HandleTable
