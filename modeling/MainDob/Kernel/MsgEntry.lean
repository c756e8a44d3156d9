/-
Purpose: Message entries of `kernel/ipc/channel.c` and the asynchronous queues
  they travel through: the per-CPU magazines, the depot and its trim, the
  reserve for interrupt context, `entry_alloc`, `entry_alloc_irq`,
  `ipc_msg_entry_free`, `enqueue_async`, `try_consume`, and the posts, notifies
  and receives made of them, interleaved lock by lock.
Trusted boundary: a section under one lock, or with interrupts off on the
  magazine of its CPU, is one step; `kmalloc` answers with a block that is not
  in use or not at all; a closed port keeps its queue (its teardown is no step)
Main exports: EntryRef, Stock, entryAlloc
-/
import Mathlib.Logic.Function.Basic
import MainDob.Kernel.Post

namespace MainDob.Kernel.MsgEntry

open Post (Message IpcStatus PortState Pointer portQueueMax
  ipcMsgSignal)

def ipcMsgRequest : Nat := 1

def maxCpus : Nat := 32

def ipcMagCap : Nat := 64

def ipcMagBatch : Nat := 32

def ipcDepotCacheMax : Nat := 256

@[irreducible] def ipcIrqPoolSize : Nat := 512

/-- The address of a `port_msg_entry_t`: an element of the static `s_irq_pool`,
or a block of the kernel heap. -/
inductive EntryRef where
  | irq (slot : Nat)
  | heap (block : Nat)
deriving DecidableEq, Repr

/-! ### Pools of free entries -/

/-- A chain of free entries with its counter: `s_mag[cpu]` with `s_mag_n[cpu]`,
or `s_depot` with `s_depot_n`. -/
structure Stock where
  entries : List EntryRef
  n : Nat
deriving DecidableEq, Repr

def Stock.empty : Stock := { entries := [], n := 0 }

def Stock.push (stock : Stock) (entry : EntryRef) : Stock :=
  { entries := entry :: stock.entries, n := stock.n + 1 }

/-- The loop of every transfer between two chains: while `more` says so, and
at most the given number of times, the first entry of `source` goes to the
front of `target`.  The source never runs the body on an empty chain. -/
def moveWhile (more : Stock → Stock → Bool) : Nat → Stock → Stock → Stock × Stock
  | 0, source, target => (source, target)
  | times + 1, source, target =>
    if more source target then
      match source.entries with
      | [] => (source, target)
      | entry :: rest =>
        moveWhile more times { entries := rest, n := source.n - 1 } (target.push entry)
    else (source, target)

/-- The refill of an empty magazine: a batch from the depot, as far as it
goes. -/
def refillMagazine (depot magazine : Stock) : Stock × Stock :=
  moveWhile (fun source _ => !source.entries.isEmpty) ipcMagBatch depot magazine

/-- The relief of a full magazine: a batch to the depot, as far as it has
room. -/
def relieveMagazine (magazine depot : Stock) : Stock × Stock :=
  moveWhile (fun _ target => decide (target.n < ipcDepotCacheMax)) ipcMagBatch magazine depot

/-- The locked section of `ipc_depot_trim`: what is above one batch leaves the
depot.  The second component is the chain in the caller's hands. -/
def ipcDepotTrim (depot : Stock) : Stock × Stock :=
  moveWhile (fun source _ => decide (ipcMagBatch < source.n)) depot.n depot .empty

/-- The section of `entry_alloc` with interrupts off: an entry of the magazine,
refilled first when it is empty, or nothing. -/
def entryAlloc (magazine depot : Stock) : Option EntryRef × Stock × Stock :=
  match magazine.entries with
  | entry :: rest => (some entry, ⟨rest, magazine.n - 1⟩, depot)
  | [] =>
    let (depot, magazine) := refillMagazine depot magazine
    match magazine.entries with
    | entry :: rest => (some entry, ⟨rest, magazine.n - 1⟩, depot)
    | [] => (none, magazine, depot)

/-- `entry_alloc_irq`; its count of dropped posts is left out. -/
def entryAllocIrq (freelist : List EntryRef) : Option EntryRef × List EntryRef :=
  match freelist with
  | entry :: rest => (some entry, rest)
  | [] => (none, [])

/-- The section of `ipc_msg_entry_free` with interrupts off, for an entry of
the heap.  The flag says that the entry found no place and is due to
`kfree`. -/
def ipcMsgEntryFree (magazine depot : Stock) (entry : EntryRef) : Bool × Stock × Stock :=
  if magazine.n < ipcMagCap then (false, magazine.push entry, depot)
  else
    let (magazine, depot) := relieveMagazine magazine depot
    if magazine.n < ipcMagCap then (false, magazine.push entry, depot)
    else (true, magazine, depot)

/-! ### Ports and posts -/

/-- What an entry carries. -/
structure Content where
  msg : Message
  payloadOwned : Bool
deriving DecidableEq, Repr

/-- Who posts: a thread of a process through `ipc_post` or `ipc_post_checked`,
the kernel through `ipc_post_kernel`, or a thread that goes on to wait for a
reply, `ipc_send_sync`, up to the queueing of its request. -/
inductive Sender where
  | user (pid tid : Int)
  | kernel
  | request (pid tid : Int)
deriving DecidableEq, Repr

/-- One call.  `gen` is present in `ipc_post_checked`. -/
structure Request where
  portId : Nat
  gen : Option Nat
  sender : Sender
  msg : Message
deriving DecidableEq, Repr

/-- What the call writes into its entry.  The kernel form keeps only the code
and three arguments of `msg`. -/
def Request.content (request : Request) : Content :=
  match request.sender with
  | .user pid tid =>
    { msg :=
        { request.msg with
          senderPid := pid, senderTid := tid, type := ipcMsgSignal }
      payloadOwned := true }
  | .kernel =>
    { msg :=
        { type := ipcMsgSignal, senderPid := 0, senderTid := -1
          code := request.msg.code, arg0 := request.msg.arg0
          arg1 := request.msg.arg1, arg2 := request.msg.arg2
          arg3 := 0, payloadSize := 0, payload := 0 }
      payloadOwned := false }
  | .request pid tid =>
    { msg :=
        { request.msg with
          senderPid := pid, senderTid := tid, type := ipcMsgRequest }
      payloadOwned := false }

/-- The fields of `ipc_port_t` that posts, notifies and receives use.
`received` is not in the source: it lists what the entries carried when they
were taken off the queue, in that order. -/
structure Port where
  id : Nat
  generation : Nat
  ownerPid : Int
  state : PortState
  msgQueue : List EntryRef
  msgCount : Nat
  notifyBits : Nat
  received : List Content
deriving DecidableEq, Repr

/-- A call between two of its sections.  A port is named by its place among
the ports of the state, as the source holds it by a counted pointer. -/
inductive Task where
  /-- The port is found; its state is to be tested. -/
  | found (port : Nat) (request : Request)
  /-- The port was active; an entry is wanted. -/
  | wanting (port : Nat) (request : Request)
  /-- Magazine and depot were empty; the heap is asked. -/
  | asking (port : Nat) (request : Request)
  /-- The entry is in hand, not yet written. -/
  | holding (port : Nat) (request : Request) (entry : EntryRef)
  /-- The entry is written. -/
  | written (port : Nat) (request : Request) (entry : EntryRef)
  /-- A receiver has taken the entry off the queue; `taken` is what it carried
  then. -/
  | popped (port : Nat) (taken : Content) (entry : EntryRef)
  /-- `ipc_msg_entry_free` is due. -/
  | releasing (entry : EntryRef)
  /-- `kfree` is due for every entry of the chain. -/
  | chain (entries : List EntryRef)
deriving DecidableEq, Repr

/-- The entries in the hands of a call. -/
def Task.entries : Task → List EntryRef
  | .found _ _ => []
  | .wanting _ _ => []
  | .asking _ _ => []
  | .holding _ _ entry => [entry]
  | .written _ _ entry => [entry]
  | .popped _ _ entry => [entry]
  | .releasing entry => [entry]
  | .chain entries => entries

/-- The end of a post: the port it found, if any, and what it returned. -/
structure Outcome where
  port : Option Nat
  request : Request
  status : IpcStatus
deriving DecidableEq, Repr

/-- A message copied out by a receiver: what its entry carried when it was
taken off the queue, and what `memcpy` read. -/
structure Delivery where
  port : Nat
  taken : Content
  copied : Content
deriving DecidableEq, Repr

/-- The pools, the memory of the entries, the ports and the calls under way.
`blocks` are the heap blocks that are entries; `outcomes`, `deliveries` and
`notified` are histories. -/
structure State where
  magazines : List Stock
  depot : Stock
  irqFreelist : List EntryRef
  memory : EntryRef → Content
  ports : List Port
  tasks : List Task
  blocks : List Nat
  outcomes : List Outcome
  deliveries : List Delivery
  notified : List (Nat × Nat)

/-- `ipc_init`: empty magazines, an empty depot and the whole reserve. -/
def initial (memory : EntryRef → Content) : State where
  magazines := List.replicate maxCpus .empty
  depot := .empty
  irqFreelist := (List.range ipcIrqPoolSize).map .irq
  memory := memory
  ports := []
  tasks := []
  blocks := []
  outcomes := []
  deliveries := []
  notified := []

/-- `ipc_port_get`, or `ipc_port_get_checked` when a generation is given. -/
def portGet (s : State) (id : Nat) (gen : Option Nat) : Option Nat :=
  s.ports.findIdx? fun port =>
    port.id == id && port.state == .active && gen.all fun g => port.generation == g

/-- Replace a task by the next ones of the same call. -/
def State.advance (s : State) (task : Task) (next : List Task) : State :=
  { s with tasks := next ++ s.tasks.erase task }

/-- Write down how a post ended. -/
def State.finish (s : State) (port : Option Nat) (request : Request) (status : IpcStatus) : State :=
  { s with outcomes := s.outcomes ++ [⟨port, request, status⟩] }

/-- Replace a port. -/
def State.setPort (s : State) (index : Nat) (port : Port) : State :=
  { s with ports := s.ports.set index port }

/-- The pending notification bits of a port go to the caller, if there are
any. -/
def State.takeBits (s : State) (index : Nat) (port : Port) : State :=
  if port.notifyBits ≠ 0 then
    { s with notified := s.notified ++ [(index, port.notifyBits)] }.setPort index
      { port with notifyBits := 0 }
  else s

inductive Label where
  /-- `ipc_port_create`. -/
  | create (id generation : Nat) (ownerPid : Int)
  /-- The locked section of `ipc_port_destroy`. -/
  | close (id : Nat)
  /-- A call looks its port up. -/
  | post (request : Request)
  /-- The test of `port->state`. -/
  | check (port : Nat) (request : Request)
  /-- `entry_alloc` on a CPU, or `entry_alloc_irq`. -/
  | alloc (cpu port : Nat) (request : Request)
  /-- `kmalloc` for an entry, with its answer. -/
  | heapAlloc (port : Nat) (request : Request) (answer : Option Nat)
  | fill (port : Nat) (request : Request) (entry : EntryRef)
  /-- `enqueue_async`, or the queueing of a request.  The payload that a full
  port frees is the subject of `MainDob.Kernel.Post`. -/
  | enqueue (port : Nat) (request : Request) (entry : EntryRef)
  /-- `ipc_notify` on a port found active. -/
  | notify (port bits : Nat)
  /-- A locked section of `ipc_wait_notify`. -/
  | waitNotify (port : Nat)
  /-- `try_consume` for a thread of process `pid`. -/
  | receive (port : Nat) (pid : Int)
  /-- `memcpy` out of an entry. -/
  | copy (port : Nat) (taken : Content) (entry : EntryRef)
  /-- `ipc_msg_entry_free` on a CPU. -/
  | free (cpu : Nat) (entry : EntryRef)
  /-- `ipc_depot_trim` under the lock. -/
  | trim
  /-- `kfree` of the first entry of a chain. -/
  | heapFree (block : Nat) (rest : List EntryRef)
deriving DecidableEq, Repr

/-- The status of a post whose lookup fails. -/
def missingStatus (request : Request) : IpcStatus :=
  if request.gen.isSome then .dead else .noPort

/-- What a call does next once its allocator has answered. -/
def allocated (port : Nat) (request : Request) : Option EntryRef → List Task
  | some entry => [.holding port request entry]
  | none => [.asking port request]

/-- What a section does, absent when no call stands before it. -/
def exec (s : State) : Label → Option State
  | .create id generation ownerPid =>
    match portGet s id none with
    | some _ => none
    | none =>
      some { s with
        ports := s.ports ++
          [{ id, generation, ownerPid, state := .active, msgQueue := []
             msgCount := 0, notifyBits := 0, received := [] }] }
  | .close id =>
    match portGet s id none with
    | none => none
    | some index =>
      (s.ports[index]?).map fun port =>
        s.setPort index { port with state := .closed }
  | .post request =>
    match portGet s request.portId request.gen with
    | none => some (s.finish none request (missingStatus request))
    | some index => some { s with tasks := .found index request :: s.tasks }
  | .check index request =>
    if .found index request ∈ s.tasks then
      (s.ports[index]?).map fun port =>
        if port.state ≠ .active then
          (s.advance (.found index request) []).finish index request .noPort
        else s.advance (.found index request) [.wanting index request]
    else none
  | .alloc cpu index request =>
    if .wanting index request ∈ s.tasks then
      match request.sender with
      | .kernel =>
        match entryAllocIrq s.irqFreelist with
        | (some entry, irqFreelist) =>
          some { s.advance (.wanting index request)
              [.holding index request entry] with irqFreelist }
        | (none, _) =>
          some ((s.advance (.wanting index request) []).finish index request .noMemory)
      | _ =>
        (s.magazines[cpu]?).map fun magazine =>
          let (entry, magazine, depot) := entryAlloc magazine s.depot
          { s.advance (.wanting index request)
              (allocated index request entry) with
            magazines := s.magazines.set cpu magazine, depot }
    else none
  | .heapAlloc index request answer =>
    if .asking index request ∈ s.tasks then
      match answer with
      | none =>
        some ((s.advance (.asking index request) []).finish index request .noMemory)
      | some block =>
        if block ∈ s.blocks then none
        else
          some { s.advance (.asking index request)
              [.holding index request (.heap block)] with
            blocks := block :: s.blocks }
    else none
  | .fill index request entry =>
    if .holding index request entry ∈ s.tasks then
      some { s.advance (.holding index request entry)
          [.written index request entry] with
        memory := Function.update s.memory entry request.content }
    else none
  | .enqueue index request entry =>
    if .written index request entry ∈ s.tasks then
      (s.ports[index]?).map fun port =>
        if portQueueMax ≤ port.msgCount then
          (s.advance (.written index request entry)
            [.releasing entry]).finish index request .portFull
        else
          ((s.advance (.written index request entry) []).finish index request
            .ok).setPort index { port with
                msgQueue := port.msgQueue ++ [entry]
                msgCount := port.msgCount + 1 }
    else none
  | .notify index bits =>
    (s.ports[index]?).map fun port =>
      if port.state ≠ .active then s
      else s.setPort index { port with notifyBits := port.notifyBits ||| bits }
  | .waitNotify index =>
    (s.ports[index]?).map fun port => s.takeBits index port
  | .receive index pid =>
    (s.ports[index]?).map fun port =>
      if port.ownerPid ≠ pid then s
      else
        match port.msgQueue with
        | entry :: rest =>
          { s with tasks :=
              .popped index (s.memory entry) entry :: s.tasks }.setPort
            index
            { port with
              msgQueue := rest
              msgCount := port.msgCount - 1
              received := port.received ++ [s.memory entry] }
        | [] => s.takeBits index port
  | .copy index taken entry =>
    if .popped index taken entry ∈ s.tasks then
      some { s.advance (.popped index taken entry) [.releasing entry] with
        deliveries := s.deliveries ++ [⟨index, taken, s.memory entry⟩] }
    else none
  | .free cpu entry =>
    if .releasing entry ∈ s.tasks then
      match entry with
      | .irq slot =>
        some { s.advance (.releasing entry) [] with
          irqFreelist := .irq slot :: s.irqFreelist }
      | .heap block =>
        (s.magazines[cpu]?).map fun magazine =>
          let (excess, magazine, depot) :=
            ipcMsgEntryFree magazine s.depot (.heap block)
          { s.advance (.releasing entry)
              (if excess then [.chain [.heap block]] else []) with
            magazines := s.magazines.set cpu magazine, depot }
    else none
  | .trim =>
    let (depot, chain) := ipcDepotTrim s.depot
    some { s with depot, tasks := .chain chain.entries :: s.tasks }
  | .heapFree block rest =>
    if .chain (.heap block :: rest) ∈ s.tasks then
      some { s.advance (.chain (.heap block :: rest)) [.chain rest] with
        blocks := s.blocks.erase block }
    else none

/-- One section of one call. -/
def step (first : State) (label : Label) (last : State) : Prop :=
  exec first label = some last

/-! ### What the queues promise -/

/-- Where an entry can be: a magazine, the depot, the reserve, a queue, or the
hands of a call. -/
def places (s : State) : List EntryRef :=
  s.magazines.flatMap Stock.entries ++ s.depot.entries ++ s.irqFreelist ++
    s.ports.flatMap Port.msgQueue ++ s.tasks.flatMap Task.entries

/-- The entries there are: the reserve's and those obtained from the heap and
not given back. -/
def entriesOf (s : State) : List EntryRef :=
  (List.range ipcIrqPoolSize).map .irq ++ s.blocks.map .heap

/-- The messages of the posts to a port that returned `IPC_OK`, in the order
they were queued. -/
def accepted (s : State) (index : Nat) : List Content :=
  s.outcomes.filterMap fun outcome =>
    if outcome.port = some index ∧ outcome.status = .ok then
      some outcome.request.content
    else none

/-- The message a receiver has taken off the queue of a port and not yet
copied. -/
def Task.pending (index : Nat) : Task → Option Content
  | .popped port taken _ => if port = index then some taken else none
  | _ => none

/-- The queues are first in, first out; each message taken off a queue is
delivered once, and as it was queued; the counter is the length; the entries
are conserved, and the counters of their pools are right. -/
structure Contract (s : State) : Prop where
  ordered : ∀ index (port : Port), s.ports[index]? = some port →
    accepted s index = port.received ++ port.msgQueue.map s.memory
  once : ∀ index (port : Port), s.ports[index]? = some port →
    port.received.Perm ((s.deliveries.filter (·.port = index)).map Delivery.taken ++
        s.tasks.filterMap (Task.pending index))
  own : ∀ delivery ∈ s.deliveries, delivery.copied = delivery.taken
  counted : ∀ port ∈ s.ports, port.msgCount = port.msgQueue.length ∧ port.msgCount ≤ portQueueMax
  conserved : (places s).Perm (entriesOf s) ∧ (entriesOf s).Nodup
  magazines : ∀ magazine ∈ s.magazines,
    magazine.n = magazine.entries.length ∧ magazine.n ≤ ipcMagCap
  depot : s.depot.n = s.depot.entries.length ∧ s.depot.n ≤ ipcDepotCacheMax

/-- The sections at which a post ends without its message being queued: no port
is found, the port is dead, no entry can be had, or the queue is full. -/
def Refuses (s : State) : Label → Prop
  | .post request => portGet s request.portId request.gen = none
  | .check index _ => ∃ port, s.ports[index]? = some port ∧ port.state ≠ .active
  | .alloc _ _ request => request.sender = .kernel ∧ s.irqFreelist = []
  | .heapAlloc _ _ answer => answer = none
  | .enqueue index _ _ =>
    ∃ port, s.ports[index]? = some port ∧ port.msgQueue.length = portQueueMax
  | _ => False

/-- The section that queues a message. -/
def Label.Queues : Label → Prop
  | .enqueue _ _ _ => True
  | _ => False

/-- The section ends a post, with a status that `good` describes. -/
def Ends (s s' : State) (good : IpcStatus → Prop) : Prop :=
  ∃ outcome, s'.outcomes = s.outcomes ++ [outcome] ∧ good outcome.status

/-- A section ends a post in failure, ends it in success, or does not end one,
as its state and label say. -/
def EndsAsSaid (s s' : State) (label : Label) : Prop :=
  (Ends s s' (· ≠ .ok) ↔ Refuses s label) ∧ (Ends s s' (· = .ok) ↔ label.Queues ∧ ¬ Refuses s label)

end MainDob.Kernel.MsgEntry
