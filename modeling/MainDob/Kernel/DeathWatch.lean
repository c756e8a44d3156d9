/-
Purpose: The death watches of `kernel/ipc/port.c` over the port table of
  `MainDob.Kernel.Port`: a watch is entered in two locked sections, and the
  destroy of a port collects and posts its watches in batches before it drops
  the reference of the slot.
Trusted boundary: a section under `s_global_lock` or `s_dw_lock` is one step;
  whether `ipc_post_kernel` takes a notification is given with the step.
Main exports: Watch, Fire, State
-/
import MainDob.Kernel.Port

namespace MainDob.Kernel.DeathWatch

open Port (Addr Tid ipcPortGet)

def deathwatchMax : Nat := 2 * Port.maxPorts

/-- Watches that one round of `deathwatch_fire` collects. -/
def batchMax : Nat := 16

/-- `deathwatch_t` in a used slot.  Not in the source: `number` counts the
watches entered so far, and `serial` is the incarnation that had the target
generation when the caller tested it. -/
structure Watch where
  watcherPid : Int
  notifyPort : Nat
  code : Nat
  targetPort : Nat
  targetGen : Nat
  serial : Nat
  number : Nat
deriving DecidableEq, Repr

/-- A `deathwatch_add` between its test of the generation and `s_dw_lock`. -/
structure Add where
  watcherPid : Int
  notifyPort : Nat
  code : Nat
  targetPort : Nat
  targetGen : Nat
  serial : Nat
deriving DecidableEq, Repr

/-- A `deathwatch_fire` in progress: the port struct and what was read from it
before the lock was dropped, the batch still to be posted, and whether the last
collection left slots to look at. -/
structure Fire where
  port : Addr
  targetPort : Nat
  targetGen : Nat
  serial : Nat
  batch : List Watch
  more : Bool
deriving DecidableEq, Repr

/-- The ports, the watch table, the calls in progress, and four records: the
adds that answered 0 with the watch each stands for, the notifications taken by
`ipc_post_kernel` with the incarnation that died, the watches dropped by a
clean-up with the process that was cleaned up, and the incarnations whose `deathwatch_fire` has returned. -/
structure State where
  ports : Port.State
  slots : List (Option Watch)
  adds : List (Tid × Add)
  fires : List (Tid × Fire)
  entered : Nat
  granted : List (Add × Watch)
  notified : List (Watch × Nat)
  dropped : List (Int × Watch)
  fired : List Nat

/-- `deathwatch_init`. -/
def initial : State where
  ports := Port.initial
  slots := List.replicate deathwatchMax none
  adds := []
  fires := []
  entered := 0
  granted := []
  notified := []
  dropped := []
  fired := []

/-- First section of `deathwatch_add`: 0 and generations other than the
current one are answered at once (the target is dead). -/
def testGeneration (s : State) (t : Tid) (add : Add) : State :=
  match ipcPortGet s.ports add.targetPort with
  | none => s
  | some p =>
    if add.targetGen = 0 ∨ (s.ports.heap p).generation ≠ add.targetGen then s
    else
      { s with
        adds := (t, { add with serial := (s.ports.heap p).serial }) ::
          s.adds }

/-- Does a slot hold the watch that the add asks for? -/
def Add.observed (add : Add) (watch : Watch) : Bool :=
  watch.notifyPort == add.notifyPort && watch.targetPort == add.targetPort &&
    watch.targetGen == add.targetGen

/-- The watch that an add enters. -/
def Add.watch (add : Add) (number : Nat) : Watch :=
  ⟨add.watcherPid, add.notifyPort, add.code, add.targetPort, add.targetGen, add.serial, number⟩

/-- The watch already in the table, if any. -/
def findObserved (slots : List (Option Watch)) (add : Add) : Option Watch :=
  slots.findSome? fun slot => slot.filter add.observed

/-- Enter a watch in the first free slot. -/
def enter (watch : Watch) : List (Option Watch) → Option (List (Option Watch))
  | [] => none
  | none :: rest => some (some watch :: rest)
  | some other :: rest => (enter watch rest).map (some other :: ·)

/-- Second section of `deathwatch_add`, with its answer: 0 for a watch found or
entered, -1 for a full table. -/
def deathwatchAdd (s : State) (add : Add) : State × Int :=
  match findObserved s.slots add with
  | some watch => ({ s with granted := s.granted ++ [(add, watch)] }, 0)
  | none =>
    match enter (add.watch s.entered) s.slots with
    | none => (s, -1)
    | some slots =>
      ({ s with
        slots := slots
        entered := s.entered + 1
        granted := s.granted ++ [(add, add.watch s.entered)] }, 0)

/-- One locked section of `deathwatch_fire`: the matching watches, at most
`count`, leave their slots. -/
def collect (targetPort targetGen : Nat) :
    Nat → List (Option Watch) → List Watch × List (Option Watch)
  | 0, slots => ([], slots)
  | _ + 1, [] => ([], [])
  | count + 1, none :: rest =>
    let (batch, rest) := collect targetPort targetGen (count + 1) rest
    (batch, none :: rest)
  | count + 1, some watch :: rest =>
    if watch.targetPort = targetPort ∧ watch.targetGen = targetGen then
      let (batch, rest) := collect targetPort targetGen count rest
      (watch :: batch, none :: rest)
    else
      let (batch, rest) := collect targetPort targetGen (count + 1) rest
      (batch, some watch :: rest)

inductive Label where
  /-- A step of the port table other than a destroy. -/
  | port (label : Port.Label)
  /-- The locked section of `ipc_port_destroy`. -/
  | destroy (t : Tid) (id : Nat)
  | test (t : Tid) (add : Add)
  | add (t : Tid) (add : Add)
  | collect (t : Tid) (fire : Fire)
  /-- `ipc_post_kernel` for the first watch of the batch. -/
  | post (t : Tid) (fire : Fire) (taken : Bool)
  /-- `deathwatch_fire` returns. -/
  | done (t : Tid) (fire : Fire)
  /-- `deathwatch_cleanup_watcher`. -/
  | cleanup (pid : Int)
deriving DecidableEq, Repr

/-- Is the thread in the middle of a `deathwatch_fire`? -/
def State.firing (s : State) (t : Tid) : Bool :=
  s.fires.any fun entry => entry.1 == t

/-- The port steps that can be taken: a thread drops the slot's reference only
after it has fired the watches. -/
def portAllowed (s : State) : Port.Label → Bool
  | .destroy _ _ => false
  | .drop t (.slot _) => !s.firing t
  | _ => true

/-- `ipc_port_destroy` up to `deathwatch_fire`. -/
def destroy (s : State) (t : Tid) (id : Nat) : State :=
  if Port.validId id then
    match s.ports.table id with
    | none => s
    | some p =>
      { s with
        ports := Port.ipcPortDestroy s.ports t id
        fires := (t, ⟨p, id, (s.ports.heap p).generation,
          (s.ports.heap p).serial, [], true⟩) :: s.fires }
  else s

/-- A `deathwatch_fire` goes on as `after`. -/
def State.setFire (s : State) (t : Tid) (fire after : Fire) : State :=
  { s with fires := (t, after) :: s.fires.erase (t, fire) }

/-- Is the slot one that the watcher has entered? -/
def enteredBy (pid : Int) (slot : Option Watch) : Bool :=
  slot.any fun watch => watch.watcherPid == pid

/-- The state after a label, if the label can be taken. -/
def exec (s : State) : Label → Option State
  | .port label =>
    if portAllowed s label then
      (Port.step s.ports label).map fun ports => { s with ports := ports }
    else none
  | .destroy t id => if s.firing t then none else some (destroy s t id)
  | .test t add => some (testGeneration s t add)
  | .add t add =>
    if (t, add) ∈ s.adds then
      some { (deathwatchAdd s add).1 with adds := s.adds.erase (t, add) }
    else none
  | .collect t fire =>
    if (t, fire) ∈ s.fires ∧ fire.batch = [] ∧ fire.more = true then
      let (batch, slots) :=
        collect fire.targetPort fire.targetGen batchMax s.slots
      some { s.setFire t fire { fire with
          batch := batch, more := decide (batch.length = batchMax) } with
        slots := slots }
    else none
  | .post t fire taken =>
    match fire.batch with
    | [] => none
    | watch :: rest =>
      if (t, fire) ∈ s.fires then
        some { s.setFire t fire { fire with batch := rest } with
          notified :=
            if taken then s.notified ++ [(watch, fire.serial)]
            else s.notified }
      else none
  | .done t fire =>
    if (t, fire) ∈ s.fires ∧ fire.batch = [] ∧ fire.more = false then
      some { s with
        fires := s.fires.erase (t, fire)
        fired := fire.serial :: s.fired }
    else none
  | .cleanup pid =>
    some { s with
      slots := s.slots.map fun slot =>
        if enteredBy pid slot then none else slot
      dropped := s.dropped ++ (s.slots.filter (enteredBy pid)).reduceOption.map (pid, ·) }

/-- The transition relation of the death watches. -/
def step (first : State) (label : Label) (last : State) : Prop :=
  exec first label = some last

end MainDob.Kernel.DeathWatch
