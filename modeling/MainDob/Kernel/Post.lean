/-
Purpose: Asynchronous posts at the level of their system calls: `sys_post` and
  `sys_post_ck` of `kernel/syscall/syscall.c`, `post_common`, `enqueue_async`
  and `try_consume` of `kernel/ipc/channel.c`, the delivery to a receiver and
  the drain of `port_teardown`, with a ledger of every `kmalloc` and `kfree` of
  a payload.
Trusted boundary: each system call is one step; what a call finds outside this
  model (user memory, the heap, a port closing under it) is part of its
  `PostCall`.
Main exports: Message, IpcStatus, Entry
-/
import MainDob.Lib.Runs
import Mathlib.Logic.Function.Basic

namespace MainDob.Kernel.Post

/-- `IPC_MSG_NOTIFY`.  The type of a message stays a number: a user can hand
in any. -/
def ipcMsgNotify : Nat := 3

def ipcMsgSignal : Nat := 4

/-- `IPC_OK` and `IPC_ERR_*`. -/
inductive IpcStatus where
  | ok
  | noPort
  | portFull
  | denied
  | invalid
  | dead
  | noMemory
  | empty
deriving DecidableEq, Repr

/-- A pointer; 0 is `NULL`. -/
abbrev Pointer := Nat

/-- `ipc_message_t`. -/
structure Message where
  type : Nat
  senderPid : Int
  senderTid : Int
  code : Nat
  arg0 : Nat
  arg1 : Nat
  arg2 : Nat
  arg3 : Nat
  payloadSize : Nat
  payload : Pointer
deriving DecidableEq, Repr

/-- `port_msg_entry_t`.  `serial` is not in the source: it is the number of
the post that queued the entry, absent for an entry of another sender. -/
structure Entry where
  msg : Message
  payloadOwned : Bool
  serial : Option Nat
deriving DecidableEq, Repr

inductive PortState where
  | active
  | closed
deriving DecidableEq, Repr

def portQueueMax : Nat := 256

/-- The fields of `ipc_port_t` that posts and receives use. -/
structure Port where
  ownerPid : Int
  state : PortState
  generation : Nat
  msgQueue : List Entry
  msgCount : Nat
  notifyBits : Nat
deriving DecidableEq, Repr

/-- A use of the heap for a payload. -/
inductive Event where
  | kmalloc (buffer : Pointer)
  | kfree (buffer : Pointer)
deriving DecidableEq, Repr

/-! ### The queue -/

/-- The guard of every release of a queued entry's payload. -/
def releaseEntryPayload (entry : Entry) : List Event :=
  if entry.payloadOwned && entry.msg.payload != 0 then
    [.kfree entry.msg.payload]
  else []

/-- `enqueue_async`: a full port frees the entry's own payload. -/
def enqueueAsync (port : Port) (entry : Entry) : Port × List Event × IpcStatus :=
  if portQueueMax ≤ port.msgCount then
    (port, releaseEntryPayload entry, .portFull)
  else
    ({ port with
        msgQueue := port.msgQueue ++ [entry]
        msgCount := port.msgCount + 1 }, [], .ok)

/-- What `try_consume` finds. -/
inductive Consumed where
  | message (entry : Entry)
  | notification (msg : Message)
  | nothing (status : IpcStatus)
deriving DecidableEq, Repr

/-- The message `try_consume` makes of pending notification bits. -/
def notifyMessage (bits : Nat) : Message :=
  ⟨ipcMsgNotify, 0, 0, 0, bits, 0, 0, 0, 0, 0⟩

/-- `try_consume`: a queued message, else the pending bits, else nothing. -/
def tryConsume (port : Port) : Port × Consumed :=
  match port.msgQueue with
  | entry :: rest =>
    ({ port with msgQueue := rest, msgCount := port.msgCount - 1 },
      .message entry)
  | [] =>
    if port.notifyBits ≠ 0 then
      ({ port with notifyBits := 0 },
        .notification (notifyMessage port.notifyBits))
    else if port.state ≠ .active then (port, .nothing .dead)
    else (port, .nothing .empty)

/-! ### Posting -/

/-- One call of `sys_post` (`gen` absent) or `sys_post_ck` (`gen` present):
its arguments and what it finds on its way. -/
structure PostCall where
  portId : Nat
  gen : Option Nat
  /-- The message read from user memory, absent when `copy_from_user` fails. -/
  copied : Option Message
  /-- The answer of `uaccess_check` for the payload. -/
  accessOk : Bool
  /-- The answer of `kmalloc` for the snapshot. -/
  snap : Pointer
  /-- Did `copy_from_user` of the payload succeed? -/
  payloadCopied : Bool
  /-- The port was closed between the lookup and the test of its state. -/
  closing : Bool
  /-- Pid and tid of the running thread, absent for a bare kernel thread. -/
  self : Option (Int × Int)
  /-- Did `entry_alloc` find an entry? -/
  entryOk : Bool
deriving DecidableEq, Repr

/-- The snapshot both system calls take of a payload: a refusal, or the
message to post. -/
def snapshotPayload (call : PostCall) (msg : Message) : List Event × Except IpcStatus Message :=
  if msg.payload ≠ 0 ∧ 0 < msg.payloadSize then
    if !call.accessOk then ([], .error .invalid)
    else if call.snap = 0 then ([], .error .noMemory)
    else if !call.payloadCopied then
      ([.kmalloc call.snap, .kfree call.snap], .error .invalid)
    else ([.kmalloc call.snap], .ok { msg with payload := call.snap })
  else ([], .ok msg)

/-- What a layer of a post hands back: the port, the caller's message as the
layer leaves it, the heap events and the status. -/
structure Posted where
  port : Port
  msg : Message
  events : List Event
  status : IpcStatus
deriving DecidableEq, Repr

/-- `post_common`: the message becomes a signal of the running thread, its
snapshot is stolen (`msg->payload = NULL`) and the entry is queued. -/
def postCommon (port : Port) (call : PostCall) (serial : Nat) (msg : Message) : Posted :=
  if port.state ≠ .active ∨ call.closing then ⟨port, msg, [], .noPort⟩
  else
    match call.self with
    | none => ⟨port, msg, [], .invalid⟩
    | some (pid, tid) =>
      let signed :=
        { msg with
          senderPid := pid, senderTid := tid, type := ipcMsgSignal }
      if !call.entryOk then ⟨port, signed, [], .noMemory⟩
      else
        let left :=
          if signed.payload ≠ 0 ∧ 0 < signed.payloadSize then
            { signed with payload := 0 }
          else signed
        let (port', events, status) :=
          enqueueAsync port ⟨signed, true, some serial⟩
        ⟨port', left, events, status⟩

/-- The ports by id, the posts made so far and the ledger: each heap event
with the number of the post it belongs to. -/
structure State where
  table : Nat → Option Port
  posts : List PostCall
  ledger : List (Nat × Event)

def initial : State where
  table := fun _ => none
  posts := []
  ledger := []

/-- `ipc_port_get` and `ipc_port_get_checked`. -/
def lookup (s : State) (call : PostCall) : Option Port :=
  match call.gen with
  | none => s.table call.portId
  | some gen =>
    (s.table call.portId).filter fun port => port.generation == gen

/-- `ipc_post` and `ipc_post_checked`: the port afterwards if one was found. -/
def ipcPost (s : State) (call : PostCall) (msg : Message) :
    Option Port × Message × List Event × IpcStatus :=
  match lookup s call with
  | none => (none, msg, [], if call.gen.isSome then .dead else .noPort)
  | some port =>
    let posted := postCommon port call s.posts.length msg
    (some posted.port, posted.msg, posted.events, posted.status)

/-- `sys_post` and `sys_post_ck` but for the record of the call: what was not
stolen is freed at the end. -/
def sysPost (s : State) (call : PostCall) : Option Port × List Event × IpcStatus :=
  match call.copied with
  | none => (none, [], .invalid)
  | some msg =>
    match snapshotPayload call msg with
    | (taken, .error status) => (none, taken, status)
    | (taken, .ok ready) =>
      let (port, left, events, status) := ipcPost s call ready
      let last := if left.payload ≠ 0 then [.kfree left.payload] else []
      (port, taken ++ events ++ last, status)

/-! ### Receiving and destroying -/

/-- `deliver_payload_to_user`: the message as the receiver sees it, with the
heap events; `ubuf` is the answer of `ipc_copy_to_user_buf`. -/
def deliverPayloadToUser (msg : Message) (owned : Bool) (ubuf : Pointer) : Message × List Event :=
  if msg.payload = 0 ∨ msg.payloadSize = 0 then
    ({ msg with payload := 0, payloadSize := 0 }, [])
  else
    (if ubuf ≠ 0 then { msg with payload := ubuf }
      else { msg with payload := 0, payloadSize := 0 },
      if owned then [.kfree msg.payload] else [])

/-- `receive_to_user` past `receive_common`: only a message with a payload is
delivered through `deliver_payload_to_user`. -/
def receiveToUser (msg : Message) (owned : Bool) (ubuf : Pointer) : Message × List Event :=
  if msg.payload ≠ 0 ∧ 0 < msg.payloadSize then
    deliverPayloadToUser msg owned ubuf
  else (msg, [])

/-- The ledger lines of an entry's heap events. -/
def entryLines (entry : Entry) (events : List Event) : List (Nat × Event) :=
  match entry.serial with
  | some serial => events.map (Prod.mk serial)
  | none => []

/-- `port_teardown`: the queue is drained from the front. -/
def portTeardown (queue : List Entry) : List (Nat × Event) :=
  queue.flatMap fun entry => entryLines entry (releaseEntryPayload entry)

inductive Label where
  /-- `ipc_port_create` has published a port under a free id. -/
  | create (id generation : Nat) (ownerPid : Int)
  /-- `ipc_port_destroy` with its teardown. -/
  | destroy (id : Nat)
  | post (call : PostCall)
  /-- A synchronous send or `ipc_post_kernel` queues a message whose payload
  stays the sender's. -/
  | lend (id : Nat) (msg : Message)
  | notify (id bits : Nat)
  /-- `sys_receive` or `sys_receive_nowait` by a thread of process `pid`. -/
  | receive (id : Nat) (pid : Int) (ubuf : Pointer)
deriving DecidableEq, Repr

/-- Replace the port under an id. -/
def State.setPort (s : State) (id : Nat) (port : Port) : State :=
  { s with table := Function.update s.table id (some port) }

/-- The table once a system call has worked on a port, if it found one. -/
def store (table : Nat → Option Port) (id : Nat) : Option Port → Nat → Option Port
  | some port => Function.update table id (some port)
  | none => table

/-- `receive_common` with `receive_to_user`: only the owner receives. -/
def receive (s : State) (id : Nat) (pid : Int) (ubuf : Pointer) : State :=
  match s.table id with
  | none => s
  | some port =>
    if port.ownerPid ≠ pid then s
    else
      match tryConsume port with
      | (port', .message entry) =>
        let events := (receiveToUser entry.msg entry.payloadOwned ubuf).2
        { s.setPort id port' with
          ledger := s.ledger ++ entryLines entry events }
      | (port', _) => s.setPort id port'

/-- The state after a label. -/
def exec (s : State) : Label → State
  | .create id generation ownerPid =>
    match s.table id with
    | none => s.setPort id ⟨ownerPid, .active, generation, [], 0, 0⟩
    | some _ => s
  | .destroy id =>
    match s.table id with
    | none => s
    | some port =>
      { s with
        table := Function.update s.table id none
        ledger := s.ledger ++ portTeardown port.msgQueue }
  | .post call =>
    let (port, events, _) := sysPost s call
    { table := store s.table call.portId port
      posts := s.posts ++ [call]
      ledger := s.ledger ++ events.map (Prod.mk s.posts.length) }
  | .lend id msg =>
    match s.table id with
    | none => s
    | some port => s.setPort id (enqueueAsync port ⟨msg, false, none⟩).1
  | .notify id bits =>
    match s.table id with
    | none => s
    | some port =>
      s.setPort id { port with notifyBits := port.notifyBits ||| bits }
  | .receive id pid ubuf => receive s id pid ubuf

/-- The transition relation of the posts. -/
def step (first : State) (label : Label) (last : State) : Prop :=
  last = exec first label

/-- What a run from boot can lead to. -/
def Reachable (s : State) : Prop :=
  ∃ labels, Lib.Steps step initial labels s

end MainDob.Kernel.Post
