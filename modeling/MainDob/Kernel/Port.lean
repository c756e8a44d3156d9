/-
Purpose: The life cycle of IPC ports of `kernel/ipc/port.c` as a transition
  system: a table of port structs, a free list of ids, a reference count per
  struct and a generation per id, used by any number of threads.
Trusted boundary: a section under `s_global_lock` and a reference-count update
  are one atomic step each; the kernel heap hands out a block that is not
  handed out already.
Main exports: IpcPort, Holder, State
-/
import MainDob.Lib.Runs
import Mathlib.Algebra.Ring.Nat
import Mathlib.Logic.Function.Basic

namespace MainDob.Kernel.Port

open Function (update)

/-- Valid ids are `1 .. maxPorts - 1`; 0 is the "not found" id. -/
def maxPorts : Nat := 4096

/-- Capacity of the LIFO of recycled structs. -/
def portRecycleMax : Nat := 64

/-- A reference count that has reached this value is frozen. -/
def refcountSaturated : Nat := 0xC0000000

/-- `refcount_inc`: saturating increment. -/
def refcountInc (value : Nat) : Nat :=
  if refcountSaturated ≤ value then value else value + 1

/-- `refcount_dec`: the new value and whether it has just reached zero.  A
saturated count never moves, a zero count is left alone. -/
def refcountDec (value : Nat) : Nat × Bool :=
  if refcountSaturated ≤ value then (value, false)
  else if value = 0 then (0, false)
  else (value - 1, value = 1)

inductive PortState where
  | active
  | closed
deriving DecidableEq, Repr

/-- The life-cycle fields of `ipc_port_t`.  `serial` is not in the source: it
numbers the creates, so that two incarnations in the same memory block can be
told apart. -/
structure IpcPort where
  id : Nat
  ownerPid : Int
  state : PortState
  generation : Nat
  refcount : Nat
  serial : Nat
deriving DecidableEq, Repr

abbrev Addr := Nat

abbrev Tid := Nat

/-- What a thread can have in hand between two atomic steps. -/
inductive Holder where
  /-- A pointer returned by a get; `serial` is the incarnation it named. -/
  | ref (port : Addr) (serial : Nat)
  /-- A destroy past its locked section: it still owns the reference of the
  table slot. -/
  | slot (port : Addr)
  /-- A drop that has reached zero: the teardown of the struct is due. -/
  | torn (port : Addr)
  /-- A teardown that has recycled the struct: the id is due back. -/
  | giveBack (id serial : Nat)
deriving DecidableEq, Repr

/-- One create: the id it took and the generation it stamped. -/
structure Incarnation where
  id : Nat
  generation : Nat
deriving DecidableEq, Repr

/-- The globals of the source, the heap blocks they point to, the pieces of
work in the hands of threads, and a history of the creates. -/
structure State where
  table : Nat → Option Addr
  freelist : List Nat
  generation : Nat → Nat
  recycle : List Addr
  heap : Addr → IpcPort
  allocated : List Addr
  pool : List (Tid × Holder)
  history : List Incarnation
  destroyed : List Nat
  zeroed : List Nat

/-- `ipc_port_init`: no port, every valid id on the free list, 1 on top. -/
def initial : State where
  table := fun _ => none
  freelist := (List.range (maxPorts - 1)).map (· + 1)
  generation := fun _ => 0
  recycle := []
  heap := fun _ => ⟨0, 0, .closed, 0, 0, 0⟩
  allocated := []
  pool := []
  history := []
  destroyed := []
  zeroed := []

/-! ### The locked sections -/

/-- `port_struct_alloc`: the top of the recycle stack, else a block from the
heap (`fresh`, absent when the heap refuses). -/
def portStructAlloc (s : State) (fresh : Option Addr) : Option (Addr × List Addr × List Addr) :=
  match s.recycle with
  | p :: rest => some (p, rest, s.allocated)
  | [] => fresh.map (fun p => (p, [], p :: s.allocated))

/-- Is the heap's answer one it can give? -/
def freshOk (s : State) (fresh : Option Addr) : Bool :=
  match s.recycle, fresh with
  | [], some p => decide (p ∉ s.allocated)
  | _, _ => true

/-- The locked section of `ipc_port_create` once an id and a struct are in
hand: stamp the next generation, take the slot's reference, publish. -/
def publish (s : State) (owner : Int) (id : Nat) (ids : List Nat)
    (p : Addr) (recycle allocated : List Addr) : State :=
  let gen := (s.generation id + 1) % 2 ^ 32
  { s with
    freelist := ids
    recycle := recycle
    allocated := allocated
    generation := update s.generation id gen
    heap := update s.heap p
      ⟨id, owner, .active, gen, 1, s.history.length⟩
    table := update s.table id (some p)
    history := s.history ++ [⟨id, gen⟩] }

/-- `ipc_port_create`: without an id or a struct nothing changes. -/
def ipcPortCreate (s : State) (owner : Int) (fresh : Option Addr) : State :=
  match s.freelist with
  | [] => s
  | id :: ids =>
    match portStructAlloc s fresh with
    | none => s
    | some (p, recycle, allocated) =>
      publish s owner id ids p recycle allocated

/-- Is the id one the API accepts? -/
def validId (id : Nat) : Bool := id != 0 && decide (id < maxPorts)

/-- The locked section of `ipc_port_destroy`: close the port and empty its
slot, whose reference passes to the caller. -/
def ipcPortDestroy (s : State) (t : Tid) (id : Nat) : State :=
  if validId id then
    match s.table id with
    | none => s
    | some p =>
      { s with
        heap := update s.heap p { s.heap p with state := .closed }
        table := update s.table id none
        pool := (t, .slot p) :: s.pool
        destroyed := (s.heap p).serial :: s.destroyed }
  else s

/-- The port `ipc_port_get` finds. -/
def ipcPortGet (s : State) (id : Nat) : Option Addr :=
  if validId id then
    match s.table id with
    | some p => if (s.heap p).state = .closed then none else some p
    | none => none
  else none

/-- The port `ipc_port_get_checked` finds: same slot and same generation. -/
def ipcPortGetChecked (s : State) (id gen : Nat) : Option Addr :=
  match ipcPortGet s id with
  | some p => if (s.heap p).generation = gen then some p else none
  | none => none

/-- A get that found `p` takes a reference before it leaves the lock. -/
def takeRef (s : State) (t : Tid) : Option Addr → State
  | none => s
  | some p =>
    { s with
      heap := update s.heap p
        { s.heap p with refcount := refcountInc (s.heap p).refcount }
      pool := (t, .ref p (s.heap p).serial) :: s.pool }

/-- The struct whose reference the holder owns. -/
def Holder.counted : Holder → Option Addr
  | .ref p _ => some p
  | .slot p => some p
  | _ => none

/-- `ipc_port_put`, or the last lines of `ipc_port_destroy`: drop the reference
that `h` owns; the one that reaches zero has the teardown to do. -/
def dropRef (s : State) (t : Tid) (h : Holder) (p : Addr) : State :=
  let outcome := refcountDec (s.heap p).refcount
  { s with
    heap := update s.heap p { s.heap p with refcount := outcome.1 }
    pool :=
      if outcome.2 then (t, .torn p) :: s.pool.erase (t, h)
      else s.pool.erase (t, h)
    zeroed := if outcome.2 then (s.heap p).serial :: s.zeroed else s.zeroed }

/-- First section of `port_teardown`, `port_struct_free`: the id is read before
the struct goes to the recycle stack or back to the heap. -/
def portStructFree (s : State) (t : Tid) (p : Addr) : State :=
  { s with
    recycle :=
      if s.recycle.length < portRecycleMax then p :: s.recycle else s.recycle
    allocated :=
      if s.recycle.length < portRecycleMax then s.allocated
      else s.allocated.erase p
    pool := (t, .giveBack (s.heap p).id (s.heap p).serial) ::
      s.pool.erase (t, .torn p) }

/-- Last section of `port_teardown`: the id goes back on the free list. -/
def pushId (s : State) (t : Tid) (id serial : Nat) : State :=
  { s with
    freelist := id :: s.freelist
    pool := s.pool.erase (t, .giveBack id serial) }

/-! ### Steps -/

/-- One atomic step by thread `t`. -/
inductive Label where
  | create (t : Tid) (owner : Int) (fresh : Option Addr)
  | destroy (t : Tid) (id : Nat)
  | get (t : Tid) (id : Nat)
  | getChecked (t : Tid) (id gen : Nat)
  | drop (t : Tid) (h : Holder)
  | structFree (t : Tid) (p : Addr)
  | pushId (t : Tid) (id serial : Nat)
deriving DecidableEq, Repr

/-- The state after a step, absent when the thread has nothing of that kind in
hand. -/
def step (s : State) : Label → Option State
  | .create _ owner fresh =>
    if freshOk s fresh then some (ipcPortCreate s owner fresh) else none
  | .destroy t id => some (ipcPortDestroy s t id)
  | .get t id => some (takeRef s t (ipcPortGet s id))
  | .getChecked t id gen => some (takeRef s t (ipcPortGetChecked s id gen))
  | .drop t h =>
    match h.counted with
    | some p => if (t, h) ∈ s.pool then some (dropRef s t h p) else none
    | none => none
  | .structFree t p =>
    if (t, .torn p) ∈ s.pool then some (portStructFree s t p) else none
  | .pushId t id serial =>
    if (t, .giveBack id serial) ∈ s.pool then some (pushId s t id serial)
    else none

/-- The step relation. -/
def Step (s : State) (label : Label) (s' : State) : Prop := step s label = some s'

/-- States some interleaving of the threads reaches. -/
def Reachable (s : State) : Prop := ∃ labels, Lib.Steps Step initial labels s

end MainDob.Kernel.Port
