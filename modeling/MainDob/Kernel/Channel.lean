/-
Purpose: Synchronous IPC of `kernel/ipc/channel.c` as a transition system: the
  sections of `ipc_send_sync`, `ipc_receive`, `ipc_reply_staged`, `ipc_post`,
  `ipc_port_destroy` and `ipc_cleanup_thread`, interleaved in any order by any
  number of threads that are born, killed and reaped.
Trusted boundary: a section under a spinlock, and a read or write of one field
  outside every lock, is one atomic step each; a wait queue is a FIFO list of
  threads; the record of a finished call keeps its last contents.  The
  notification bits of a port are not modelled.
Main exports: Pending, PortRec, Pc
-/
import MainDob.Kernel.Port

namespace MainDob.Kernel.Channel

open Function (update)
open Port (PortState refcountInc refcountDec validId)

/-- Messages a port can hold. -/
def portQueueMax : Nat := 256

def maxThreads : Nat := 1024

/-- Senders marked in one locked pass of a destroy. -/
def wakeBatch : Nat := 32

/-- A thread, never reused: `Tid` is the number that is. -/
abbrev Thread := Nat

abbrev Tid := Nat

/-- An incarnation of a port, never reused: its id is. -/
abbrev PortRef := Nat

/-- One execution of `ipc_send_sync` past its checks; it names the
`pending_reply_t` on that stack frame. -/
abbrev Request := Nat

/-- A kernel buffer that carries the payload of a reply. -/
abbrev Buffer := Nat

inductive IpcResult where
  | ok
  | noPort
  | portFull
  | denied
  | invalid
  | dead
  | noMemory
  | empty
deriving DecidableEq, Repr

/-- `port_msg_entry_t`.  `request` is the call that queued it, absent for a
post. -/
structure Entry where
  senderPid : Nat
  senderTid : Tid
  request : Option Request
  payloadSize : Nat
  payloadOwned : Bool
deriving DecidableEq, Repr

/-- What `ipc_reply_staged` copies into the sender's reply buffer.  `answers`
is the request the replying server means to answer. -/
structure Reply where
  answers : Option Request
  payload : Option Buffer
deriving DecidableEq, Repr

/-- `pending_reply_t`, with the thread whose stack it is on, the struct the
call holds a reference to, and whether a receiver has taken the message. -/
structure Pending where
  thread : Thread
  port : PortRef
  payloadSize : Nat
  reply : Option Reply
  replyReceived : Bool
  portDead : Bool
  targetPortId : Nat
  targetPortGen : Nat
  replyWait : List Thread
  taken : Bool
deriving DecidableEq, Repr

/-- The fields of `ipc_port_t` that synchronous IPC uses. -/
structure PortRec where
  id : Nat
  ownerPid : Nat
  state : PortState
  generation : Nat
  refcount : Nat
  msgQueue : List Entry
  msgCount : Nat
  pendingSenders : List Request
  recvWaiters : List Thread
deriving DecidableEq, Repr

/-- Where a thread is between two atomic sections. -/
inductive Pc where
  | user
  /-- `ipc_send_sync` has its port reference. -/
  | sendGot (p : PortRef) (size : Nat)
  /-- The port was active; the pending record and the entry are built. -/
  | sendReady (r : Request)
  /-- `s_pending[tid]` points to the record. -/
  | sendPublished (r : Request)
  /-- The queue was full; `s_pending[tid]` is still set. -/
  | sendRefused (r : Request)
  | sendQueued (r : Request)
  /-- A waiting receiver was taken off its queue. -/
  | sendExtracted (r : Request) (receiver : Thread)
  /-- In `reply_wait`, about to switch to the receiver. -/
  | sendHandoff (r : Request) (receiver : Thread)
  /-- Head of the wait loop. -/
  | sendTest (r : Request)
  | sendPrepare (r : Request)
  | sendPrepared (r : Request)
  | sendAsleep (r : Request)
  /-- Past the wait loop, slot still set. -/
  | sendLeaving (r : Request)
  | sendUnlinking (r : Request)
  | sendPut (r : Request)
  /-- Back in `sys_send`. -/
  | sendReturned (r : Request)
  | recvTest (p : PortRef) (blocking : Bool)
  | recvPrepare (p : PortRef)
  | recvPrepared (p : PortRef)
  | recvAsleep (p : PortRef)
  | postGot (p : PortRef) (size : Nat)
  | postReady (p : PortRef) (size : Nat)
  /-- `ipc_port_destroy` past its locked section. -/
  | destroyClosed (p : PortRef) (hasPending : Bool)
  | destroyMark (p : PortRef)
  | destroyBatch (p : PortRef) (batch : List Request) (more : Bool)
  | putting (p : PortRef) (result : IpcResult)
deriving DecidableEq, Repr

/-- A thread's progress towards its grave. -/
inductive Life where
  | alive
  | dead
  /-- `ipc_cleanup_thread` past the slot: the record is to be unlinked from the
  port it found. -/
  | unlinking (r : Request) (port : Option PortRef)
  | cleaned
  | reaped
deriving DecidableEq, Repr

/-- The globals of the source, the threads with the blocked ones they have
detached and must still unblock (`hands`), and what became of the buffers of
replies. -/
structure State where
  table : Nat → Option PortRef
  generation : Nat → Nat
  ports : PortRef → PortRec
  nextPort : PortRef
  slot : Tid → Option Request
  requests : Request → Pending
  nextRequest : Request
  pc : Thread → Pc
  blocked : Thread → Bool
  hands : Thread → List Thread
  life : Thread → Life
  tidOf : Thread → Tid
  pidOf : Thread → Nat
  tidOwner : Tid → Option Thread
  nextThread : Thread
  result : Thread → IpcResult
  nextBuffer : Buffer
  handed : List (Buffer × Request)
  freed : List Buffer
  placed : List (Request × Reply)

/-- No port and no thread. -/
def initial : State where
  table := fun _ => none
  generation := fun _ => 0
  ports := fun _ => ⟨0, 0, .closed, 0, 0, [], 0, [], []⟩
  nextPort := 0
  slot := fun _ => none
  requests := fun _ => ⟨0, 0, 0, none, false, false, 0, 0, [], false⟩
  nextRequest := 0
  pc := fun _ => .user
  blocked := fun _ => false
  hands := fun _ => []
  life := fun _ => .reaped
  tidOf := fun _ => 0
  pidOf := fun _ => 0
  tidOwner := fun _ => none
  nextThread := 0
  result := fun _ => .ok
  nextBuffer := 0
  handed := []
  freed := []
  placed := []

namespace State

def setPc (s : State) (t : Thread) (pc : Pc) : State :=
  { s with pc := update s.pc t pc }

def setRequest (s : State) (r : Request) (pending : Pending) : State :=
  { s with requests := update s.requests r pending }

def setPort (s : State) (p : PortRef) (port : PortRec) : State :=
  { s with ports := update s.ports p port }

def setSlot (s : State) (tid : Tid) (r : Option Request) : State :=
  { s with slot := update s.slot tid r }

def setBlocked (s : State) (t : Thread) (value : Bool) : State :=
  { s with blocked := update s.blocked t value }

def setHands (s : State) (t : Thread) (threads : List Thread) : State :=
  { s with hands := update s.hands t threads }

def setLife (s : State) (t : Thread) (life : Life) : State :=
  { s with life := update s.life t life }

def setResult (s : State) (t : Thread) (result : IpcResult) : State :=
  { s with result := update s.result t result }

end State

/-! ### Ports -/

/-- `ipc_port_get`: the active port in the slot of the id. -/
def ipcPortGet (s : State) (id : Nat) : Option PortRef :=
  if validId id then
    match s.table id with
    | some p => if (s.ports p).state = .closed then none else some p
    | none => none
  else none

/-- A get that found `p` holds one more reference to it. -/
def takeRef (s : State) (p : PortRef) : State :=
  s.setPort p { s.ports p with refcount := refcountInc (s.ports p).refcount }

/-- `ipc_port_put`: the last reference tears the port down, which drains its
queue. -/
def ipcPortPut (s : State) (p : PortRef) : State :=
  let outcome := refcountDec (s.ports p).refcount
  s.setPort p { s.ports p with
      refcount := outcome.1
      msgQueue := if outcome.2 then [] else (s.ports p).msgQueue }

/-- `ipc_port_create` for an id of the free list: the next generation of the id,
an empty queue and the reference of the slot. -/
def ipcPortCreate (s : State) (t : Thread) (id : Nat) : State :=
  let gen := (s.generation id + 1) % 2 ^ 32
  { s with
    generation := update s.generation id gen
    table := update s.table id (some s.nextPort)
    ports := update s.ports s.nextPort
      ⟨id, s.pidOf t, .active, gen, 1, [], 0, [], []⟩
    nextPort := s.nextPort + 1 }

/-! ### `ipc_send_sync` -/

/-- A call that needs the port `id`: it takes a reference and goes to `next`,
or returns `missing`. -/
def withPort (s : State) (t : Thread) (id : Nat) (next : PortRef → Pc)
    (missing : IpcResult) : State :=
  match ipcPortGet s id with
  | some p => (takeRef s p).setPc t (next p)
  | none => s.setResult t missing

/-- The state check and the two records of the call; `memory` is the outcome of
`entry_alloc`. -/
def sendCheck (s : State) (t : Thread) (p : PortRef) (size : Nat) (memory : Bool) : State :=
  if (s.ports p).state ≠ .active then s.setPc t (.putting p .noPort)
  else if memory then
    { s with
      requests := update s.requests s.nextRequest
        { thread := t, port := p, payloadSize := size, reply := none,
          replyReceived := false, portDead := false,
          targetPortId := (s.ports p).id,
          targetPortGen := (s.ports p).generation,
          replyWait := [], taken := false }
      nextRequest := s.nextRequest + 1
      pc := update s.pc t (.sendReady s.nextRequest) }
  else s.setPc t (.putting p .noMemory)

/-- The section under `port->lock`: the message joins the queue and the record
the pending senders, unless the queue is full. -/
def sendEnqueue (s : State) (t : Thread) (r : Request) : State :=
  let p := (s.requests r).port
  let port := s.ports p
  if portQueueMax ≤ port.msgCount then s.setPc t (.sendRefused r)
  else
    (s.setPort p { port with
        msgQueue := port.msgQueue ++
          [⟨s.pidOf t, s.tidOf t, some r, (s.requests r).payloadSize, false⟩]
        msgCount := port.msgCount + 1
        pendingSenders := port.pendingSenders ++ [r] }).setPc t (.sendQueued r)

/-- `wait_queue_extract_one(&port->recv_waiters)`. -/
def sendExtract (s : State) (t : Thread) (r : Request) : State :=
  let p := (s.requests r).port
  match (s.ports p).recvWaiters with
  | [] => s.setPc t (.sendTest r)
  | receiver :: rest =>
    (s.setPort p { s.ports p with recvWaiters := rest }).setPc t
      (.sendExtracted r receiver)

/-- `wait_prepare(&pending.reply_wait, 0)`. -/
def prepareReplyWait (s : State) (t : Thread) (r : Request) : State :=
  (s.setRequest r { s.requests r with
      replyWait := (s.requests r).replyWait ++ [t] }).setBlocked t true

/-- The receiver is on this CPU: prepare and hand it the processor, without a
look at the reply.  Else it is woken like any other. -/
def sendHandoff (s : State) (t : Thread) (r : Request) (receiver : Thread)
    (sameCpu : Bool) : State :=
  if sameCpu then (prepareReplyWait s t r).setPc t (.sendHandoff r receiver)
  else (s.setHands t [receiver]).setPc t (.sendTest r)

/-- `scheduler_yield_to(receiver, THREAD_BLOCKED)`: without a blocked receiver
it degrades to a wake and the caller goes on. -/
def sendSwitch (s : State) (t : Thread) (r : Request) (receiver : Thread) :
    State :=
  if s.blocked receiver then
    (s.setBlocked receiver false).setPc t (.sendAsleep r)
  else s.setPc t (.sendTest r)

/-- `while (!pending.reply_received)`. -/
def sendTest (s : State) (t : Thread) (r : Request) : State :=
  if (s.requests r).replyReceived then s.setPc t (.sendLeaving r)
  else s.setPc t (.sendPrepare r)

/-- The second look: `wait_cancel`, or leave the processor. -/
def sendRecheck (s : State) (t : Thread) (r : Request) : State :=
  if (s.requests r).replyReceived then
    ((s.setRequest r { s.requests r with
        replyWait := (s.requests r).replyWait.erase t }).setBlocked t
      false).setPc t (.sendLeaving r)
  else s.setPc t (.sendAsleep r)

/-- Unlink from the pending senders, unless a destroy has done it. -/
def sendUnlink (s : State) (t : Thread) (r : Request) : State :=
  let pending := s.requests r
  let port := s.ports pending.port
  if !pending.portDead && port.generation == pending.targetPortGen then
    (s.setPort pending.port { port with pendingSenders := port.pendingSenders.erase r }).setPc t
      (.sendPut r)
  else s.setPc t (.sendPut r)

/-- The end of `sys_send`: only `IPC_OK` delivers the reply and frees its
payload. -/
def sysSendReturn (s : State) (t : Thread) (r : Request) : State :=
  if (s.requests r).portDead then (s.setResult t .dead).setPc t .user
  else
    let payload := (s.requests r).reply.bind Reply.payload
    let delivered :=
      { s with handed := s.handed ++ payload.toList.map (fun b => (b, r)) }
    (delivered.setResult t .ok).setPc t .user

/-! ### `ipc_receive` -/

/-- `try_consume` without the notification bits: the queue first, then the
state.  A request that is popped is in the receiver's hands. -/
def tryConsume (s : State) (p : PortRef) : Option State :=
  match (s.ports p).msgQueue with
  | [] => none
  | entry :: rest =>
    let popped := s.setPort p { s.ports p with
        msgQueue := rest
        msgCount := (s.ports p).msgCount - 1 }
    match entry.request with
    | some r => some (popped.setRequest r { s.requests r with taken := true })
    | none => some popped

/-- First look of the receive loop.  Only the owner receives. -/
def recvTest (s : State) (t : Thread) (p : PortRef) (blocking : Bool) : State :=
  if (s.ports p).ownerPid ≠ s.pidOf t then s.setPc t (.putting p .denied)
  else
    match tryConsume s p with
    | some popped => popped.setPc t (.putting p .ok)
    | none =>
      if (s.ports p).state ≠ .active then s.setPc t (.putting p .dead)
      else if blocking then s.setPc t (.recvPrepare p)
      else s.setPc t (.putting p .empty)

/-- `wait_prepare(&port->recv_waiters, 0)`. -/
def recvPrepare (s : State) (t : Thread) (p : PortRef) : State :=
  ((s.setPort p { s.ports p with
      recvWaiters := (s.ports p).recvWaiters ++ [t] }).setBlocked t
    true).setPc t (.recvPrepared p)

/-- `wait_cancel` of a receiver. -/
def recvCancel (s : State) (t : Thread) (p : PortRef) : State :=
  (s.setPort p { s.ports p with
      recvWaiters := (s.ports p).recvWaiters.erase t }).setBlocked t false

/-- Second look of the receive loop. -/
def recvRecheck (s : State) (t : Thread) (p : PortRef) : State :=
  match tryConsume s p with
  | some popped => (recvCancel popped t p).setPc t (.putting p .ok)
  | none =>
    if (s.ports p).state ≠ .active then
      (recvCancel s t p).setPc t (.putting p .dead)
    else s.setPc t (.recvAsleep p)

/-! ### `ipc_post` -/

def postCheck (s : State) (t : Thread) (p : PortRef) (size : Nat) (memory : Bool) : State :=
  if (s.ports p).state ≠ .active then s.setPc t (.putting p .noPort)
  else if memory then s.setPc t (.postReady p size)
  else s.setPc t (.putting p .noMemory)

/-- `enqueue_async`: the payload goes with the entry, and one receiver is
woken. -/
def postEnqueue (s : State) (t : Thread) (p : PortRef) (size : Nat) : State :=
  let port := s.ports p
  if portQueueMax ≤ port.msgCount then s.setPc t (.putting p .portFull)
  else
    ((s.setPort p { port with
        msgQueue := port.msgQueue ++
          [⟨s.pidOf t, s.tidOf t, none, size, true⟩]
        msgCount := port.msgCount + 1
        recvWaiters := port.recvWaiters.tail }).setHands t
      port.recvWaiters.head?.toList).setPc t (.putting p .ok)

/-! ### `ipc_reply_staged` -/

/-- The section under the lock of the thread id: nothing but the id says which
request is meant.  A slot that is empty frees the payload. -/
def ipcReplyStaged (s : State) (t : Thread) (tid : Tid) (reply : Reply) :
    State :=
  match (if tid < maxThreads then s.slot tid else none) with
  | none =>
    { s with
      freed := s.freed ++ reply.payload.toList
      result := update s.result t .invalid }
  | some r =>
    let pending := s.requests r
    { s with
      requests := update s.requests r
        { pending with
          reply := some reply
          replyReceived := true
          replyWait := pending.replyWait.tail }
      hands := update s.hands t pending.replyWait.head?.toList
      result := update s.result t .ok
      placed := s.placed ++ [(r, reply)] }

/-- `sys_reply`: the payload is copied to a kernel buffer first. -/
def sysReply (s : State) (t : Thread) (tid : Tid) (answers : Option Request)
    (payload : Bool) : State :=
  if payload then
    ipcReplyStaged { s with nextBuffer := s.nextBuffer + 1 } t tid
      ⟨answers, some s.nextBuffer⟩
  else ipcReplyStaged s t tid ⟨answers, none⟩

/-! ### `ipc_port_destroy` -/

/-- The section under the global lock. -/
def ipcPortDestroy (s : State) (t : Thread) (id : Nat) : State :=
  if validId id then
    match s.table id with
    | none => s
    | some p =>
      ({ s with table := update s.table id none }.setPort p
        { s.ports p with state := .closed }).setPc t
        (.destroyClosed p !(s.ports p).pendingSenders.isEmpty)
  else s

/-- `wait_queue_wake_all(&port->recv_waiters)`. -/
def destroyWakeReceivers (s : State) (t : Thread) (p : PortRef) (hasPending : Bool) : State :=
  ((s.setPort p { s.ports p with recvWaiters := [] }).setHands t
    (s.ports p).recvWaiters).setPc t
    (if hasPending then .destroyMark p else .putting p .ok)

/-- The senders one locked pass marks: the first ones without a reply. -/
def markBatch (s : State) (p : PortRef) : List Request :=
  ((s.ports p).pendingSenders.filter (fun r => !(s.requests r).replyReceived)).take wakeBatch

/-- One pass of `ipc_wake_senders_for_port_ptr` under `port->lock`. -/
def destroyMark (s : State) (t : Thread) (p : PortRef) : State :=
  let batch := markBatch s p
  let marked :=
    { s with
      requests := fun r =>
        if r ∈ batch then
          { s.requests r with portDead := true, replyReceived := true }
        else s.requests r }
  (marked.setPort p { s.ports p with
      pendingSenders :=
        (s.ports p).pendingSenders.filter (fun r => r ∉ batch) }).setPc t
    (if batch.isEmpty then .putting p .ok
      else .destroyBatch p batch (batch.length == wakeBatch))

/-- `wait_queue_wake_all(&batch[i]->reply_wait)`, or the end of the batch. -/
def destroyWake (s : State) (t : Thread) (p : PortRef) (batch : List Request)
    (more : Bool) : State :=
  match batch with
  | [] => s.setPc t (if more then .destroyMark p else .putting p .ok)
  | r :: rest =>
    ((s.setRequest r { s.requests r with replyWait := [] }).setHands t
      (s.requests r).replyWait).setPc t (.destroyBatch p rest more)

/-! ### Steps -/

/-- The next section of the call thread `t` is in.  `flag` is what the section
does not decide itself: the outcome of an allocation, or whether a receiver
is on this CPU.  A thread asleep goes on once somebody has unblocked it. -/
def advance (s : State) (t : Thread) (flag : Bool) : Option State :=
  match s.pc t with
  | .user => none
  | .sendGot p size => some (sendCheck s t p size flag)
  | .sendReady r =>
    some ((s.setSlot (s.tidOf t) (some r)).setPc t (.sendPublished r))
  | .sendPublished r => some (sendEnqueue s t r)
  | .sendRefused r =>
    some ((s.setSlot (s.tidOf t) none).setPc t (.putting (s.requests r).port .portFull))
  | .sendQueued r => some (sendExtract s t r)
  | .sendExtracted r receiver => some (sendHandoff s t r receiver flag)
  | .sendHandoff r receiver => some (sendSwitch s t r receiver)
  | .sendTest r => some (sendTest s t r)
  | .sendPrepare r =>
    some ((prepareReplyWait s t r).setPc t (.sendPrepared r))
  | .sendPrepared r => some (sendRecheck s t r)
  | .sendAsleep r => if s.blocked t then none else some (s.setPc t (.sendTest r))
  | .sendLeaving r =>
    some ((s.setSlot (s.tidOf t) none).setPc t (.sendUnlinking r))
  | .sendUnlinking r => some (sendUnlink s t r)
  | .sendPut r =>
    some ((ipcPortPut s (s.requests r).port).setPc t (.sendReturned r))
  | .sendReturned r => some (sysSendReturn s t r)
  | .recvTest p blocking => some (recvTest s t p blocking)
  | .recvPrepare p => some (recvPrepare s t p)
  | .recvPrepared p => some (recvRecheck s t p)
  | .recvAsleep p =>
    if s.blocked t then none else some (s.setPc t (.recvTest p true))
  | .postGot p size => some (postCheck s t p size flag)
  | .postReady p size => some (postEnqueue s t p size)
  | .destroyClosed p hasPending => some (destroyWakeReceivers s t p hasPending)
  | .destroyMark p => some (destroyMark s t p)
  | .destroyBatch p batch more => some (destroyWake s t p batch more)
  | .putting p result =>
    some (((ipcPortPut s p).setResult t result).setPc t .user)

/-- What a thread in user mode can ask for. -/
inductive Call where
  | create (id : Nat)
  | send (id size : Nat)
  | receive (id : Nat) (blocking : Bool)
  | reply (tid : Tid) (answers : Option Request) (payload : Bool)
  | post (id size : Nat)
  | destroy (id : Nat)
deriving DecidableEq, Repr

/-- The first section of a call. -/
def enter (s : State) (t : Thread) : Call → Option State
  | .create id =>
    if validId id && (s.table id).isNone then some (ipcPortCreate s t id)
    else none
  | .send id size => some (withPort s t id (fun p => .sendGot p size) .noPort)
  | .receive id blocking =>
    some (withPort s t id (fun p => .recvTest p blocking) .noPort)
  | .reply tid answers payload => some (sysReply s t tid answers payload)
  | .post id size => some (withPort s t id (fun p => .postGot p size) .noPort)
  | .destroy id => some (ipcPortDestroy s t id)

/-- `thread_destroy` or `thread_exit`: the thread leaves its wait queue and
never runs again. -/
def kill (s : State) (t : Thread) : State :=
  let detached :=
    match s.pc t with
    | .sendHandoff r _ | .sendTest r | .sendPrepare r | .sendPrepared r
    | .sendAsleep r =>
      s.setRequest r { s.requests r with replyWait := (s.requests r).replyWait.erase t }
    | .recvTest p _ | .recvPrepare p | .recvPrepared p | .recvAsleep p =>
      s.setPort p { s.ports p with recvWaiters := (s.ports p).recvWaiters.erase t }
    | _ => s
  detached.setLife t .dead

/-- `ipc_cleanup_thread` up to the lookup of the target port. -/
def ipcCleanupThread (s : State) (t : Thread) : State :=
  match s.slot (s.tidOf t) with
  | none => s.setLife t .cleaned
  | some r =>
    let pending := s.requests r
    let marked := (s.setSlot (s.tidOf t) none).setRequest r
      { pending with portDead := true, replyReceived := true }
    match ipcPortGet s pending.targetPortId with
    | none => marked.setLife t (.unlinking r none)
    | some p => (takeRef marked p).setLife t (.unlinking r (some p))

/-- The rest of `ipc_cleanup_thread`: only the incarnation the request was sent
to is touched. -/
def cleanupUnlink (s : State) (t : Thread) (r : Request) : Option PortRef → State
  | none => s.setLife t .cleaned
  | some p =>
    let port := s.ports p
    let unlinked :=
      if port.generation = (s.requests r).targetPortGen then
        s.setPort p { port with pendingSenders := port.pendingSenders.erase r }
      else s
    (ipcPortPut unlinked p).setLife t .cleaned

/-- A thread is born with a free number. -/
def spawn (s : State) (tid : Tid) (pid : Nat) : State :=
  { s with
    life := update s.life s.nextThread .alive
    tidOf := update s.tidOf s.nextThread tid
    pidOf := update s.pidOf s.nextThread pid
    tidOwner := update s.tidOwner tid (some s.nextThread)
    nextThread := s.nextThread + 1 }

/-- `reap_detach`: the number of the thread is free again. -/
def reapDetach (s : State) (t : Thread) : State :=
  { s with
    life := update s.life t .reaped
    tidOwner := update s.tidOwner (s.tidOf t) none }

inductive Label where
  | call (t : Thread) (call : Call)
  | run (t : Thread) (flag : Bool)
  /-- `scheduler_unblock` of the first thread in hand. -/
  | unblock (t : Thread)
  | spawn (tid : Tid) (pid : Nat)
  | kill (t : Thread)
  | cleanup (t : Thread)
  | reap (t : Thread)
deriving DecidableEq, Repr

/-- May `t` take its next step?  What it has detached it unblocks first. -/
def ready (s : State) (t : Thread) : Bool :=
  decide (s.life t = .alive) && (s.hands t).isEmpty

/-- The state after a step, absent where no such step is possible. -/
def step (s : State) : Label → Option State
  | .call t call =>
    if ready s t && decide (s.pc t = .user) then enter s t call else none
  | .run t flag => if ready s t then advance s t flag else none
  | .unblock t =>
    if s.life t = .alive then
      match s.hands t with
      | [] => none
      | first :: rest =>
        some ((s.setBlocked first false).setHands t rest)
    else none
  | .spawn tid pid =>
    if decide (tid < maxThreads) && (s.tidOwner tid).isNone then
      some (spawn s tid pid)
    else none
  | .kill t => if s.life t = .alive then some (kill s t) else none
  | .cleanup t =>
    match s.life t with
    | .dead => some (ipcCleanupThread s t)
    | .unlinking r port => some (cleanupUnlink s t r port)
    | _ => none
  | .reap t => if s.life t = .cleaned then some (reapDetach s t) else none

/-- The step relation. -/
def Step (s : State) (label : Label) (s' : State) : Prop :=
  step s label = some s'

/-- The state after the labels in order. -/
def execAll (s : State) : List Label → Option State
  | [] => some s
  | label :: labels => (step s label).bind (fun next => execAll next labels)

end MainDob.Kernel.Channel
