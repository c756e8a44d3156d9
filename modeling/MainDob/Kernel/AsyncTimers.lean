/-
Purpose: The asynchronous timers and the watchdogs of kernel/syscall/driver.c: their two pools,
  the system calls and the clean-up of a process, and the expiry callbacks with the sections
  of `ipc_post_kernel` (kernel/ipc/channel.c), over the timer heap.
Trusted boundary: a section under a spinlock is one step, and so is each access
  outside one, but `ipc_port_get` and the test of the state after it are one;
  clock readings, whether the heap could be grown, and what other code does to
  ports, queues and the pool of entries are choices of the environment; the
  timers of the pools are initialised once, at boot
Main exports: Ipc, Slot, Pc, Call
-/
import MainDob.Kernel.MsgEntry
import MainDob.Kernel.Timer

namespace MainDob.Kernel.AsyncTimers

open Function (update)
open Lib
open MsgEntry (ipcIrqPoolSize)
open Post (portQueueMax)

def timerPoolMax : Nat := 64

def watchdogMax : Nat := 16

/-- The timers of both pools: those below `timerPoolMax` are the `ktimer` of the
entries of `s_timer_pool`, the others the `timer` of those of `s_watchdogs`. -/
def pooled : Nat := timerPoolMax + watchdogMax

def msToNs (ms : Nat) : Nat := ms * 1000000

/-- `async_timer_t` or `watchdog_entry_t` without its timer: `word` is the
`notify_port` of the one and the `timeout_ms` of the other.  `stamp` is not in
the source: it counts how often the entry was taken. -/
structure Slot where
  used : Bool
  ownerPid : Nat
  word : Nat
  stamp : Nat
deriving DecidableEq, Repr

/-- Where a thread stands between two sections of a call; `t` is the number of
the timer. -/
inductive Pc where
  /-- `sys_timer_set` has taken the entry. -/
  | setArm (t port delayMs : Nat) (once : Bool)
  /-- The timer could not be armed. -/
  | setFail (t : Nat)
  /-- `sys_timer_cancel` has checked the entry. -/
  | cancelDetach (t : Nat)
  /-- The timer is cancelled. -/
  | cancelFree (t : Nat)
  /-- `sys_watchdog_set` has freed the entry. -/
  | dogDetach (t : Nat)
  /-- `sys_watchdog_set` has found or taken the entry. -/
  | dogRefresh (t timeoutMs : Nat)
  /-- The timer is cancelled. -/
  | dogArm (t timeoutMs : Nat)
  /-- The timer could not be armed. -/
  | dogFail (t : Nat)
  /-- The clean-up comes to an entry. -/
  | scan (t : Nat)
  /-- The entry is the process's. -/
  | scanDetach (t : Nat)
  /-- The timer of an entry of `s_timer_pool` is cancelled. -/
  | scanFree (t : Nat)
deriving DecidableEq, Repr

/-- The entry a thread works on without having it locked. -/
def Pc.target : Pc → Option Nat
  | .setArm t _ _ _ | .setFail t | .cancelDetach t | .cancelFree t
  | .dogDetach t | .dogRefresh t _ | .dogArm t _ | .dogFail t
  | .scanDetach t | .scanFree t => some t
  | .scan _ => none

/-- A call that is under way, for a process; `stamp` is not in the source: it is
that of the entry when the call found or took it. -/
structure Call where
  pid : Nat
  stamp : Nat
  pc : Pc
deriving DecidableEq, Repr

/-- What `ipc_post_kernel` finds: the active port with an id, by a number of
its struct; the `msg_count` of a struct; and the length of `s_irq_freelist`. -/
structure Ipc where
  ports : Nat → Option Nat
  msgCount : Nat → Nat
  irqFree : Nat

/-- Where a callback stands. -/
inductive Callback where
  /-- `async_timer_fire` found the entry used, and calls `ipc_post_kernel`. -/
  | posting
  /-- The port with the id `port` is active; `index` is its struct. -/
  | allocating (port index : Nat)
  /-- The entry of the message is in hand. -/
  | enqueuing (port index : Nat)
  /-- `ipc_post_kernel` has come back. -/
  | freeing
  /-- It has seen a one-shot timer. -/
  | releasing
  /-- `watchdog_fire` found the entry used, and frees it. -/
  | killing (pid : Nat)
deriving DecidableEq, Repr

/-- What happened in the life `stamp` of an entry. -/
inductive Note where
  /-- A one-shot `sys_timer_set` has come back with the timer armed. -/
  | started (t stamp port : Nat)
  /-- The owner, or its clean-up, is cancelling it. -/
  | cancelled (t stamp : Nat)
  /-- The event is on the queue of the port, and the port is active. -/
  | posted (t stamp port : Nat)
deriving DecidableEq, Repr

/-- The timer heap, the ports, the entries, the calls of the threads and the
callbacks of the CPUs.  `armedBy`, `killed` and `log` are kept for the statements: the life
in which a timer was armed last, and what has happened. -/
structure State where
  wheel : Timers.State
  ipc : Ipc
  slots : Nat → Slot
  calls : Nat → Option Call
  callbacks : Nat → Option Callback
  armedBy : Nat → Nat
  killed : List Nat
  log : List Note

/-- Overwrite an entry. -/
def State.setSlot (s : State) (t : Nat) (slot : Slot) : State :=
  { s with slots := update s.slots t slot }

/-- Set what a thread does. -/
def State.setCall (s : State) (thread : Nat) (call : Option Call) : State :=
  { s with calls := update s.calls thread call }

/-- Set where the callback of a CPU stands. -/
def State.setCallback (s : State) (cpu : Nat) (callback : Option Callback) :
    State :=
  { s with callbacks := update s.callbacks cpu callback }

/-- Record a note. -/
def State.note (s : State) (note : Note) : State :=
  { s with log := note :: s.log }

/-- `used = false`. -/
def State.free (s : State) (t : Nat) : State :=
  s.setSlot t { s.slots t with used := false }

/-- An entry that is given to a process. -/
def State.take (s : State) (t pid word : Nat) : State :=
  s.setSlot t ⟨true, pid, word, (s.slots t).stamp + 1⟩

/-- The first free entry from `first` on. -/
def freeSlot (s : State) (first count : Nat) : Option Nat :=
  (List.range' first count).find? fun t => !(s.slots t).used

/-- The entry is in use by a process. -/
def State.owns (s : State) (pid t : Nat) : Bool :=
  (s.slots t).used && (s.slots t).ownerPid == pid

/-- The first watchdog of a process. -/
def ownDog (s : State) (pid : Nat) : Option Nat :=
  (List.range' timerPoolMax watchdogMax).find? fun t => s.owns pid t

/-- A thread goes on in a call, on the entry `t` as it is now. -/
def State.enter (s : State) (thread pid t : Nat) (pc : Pc) : State :=
  s.setCall thread (some ⟨pid, (s.slots t).stamp, pc⟩)

/-- The first section of `sys_timer_set`. -/
def sysTimerSet (s : State) (thread pid port delayMs : Nat) (repeats : Bool) :
    State :=
  if delayMs = 0 then s
  else
    match freeSlot s 0 timerPoolMax with
    | none => s
    | some t =>
      (s.take t pid port).enter thread pid t (.setArm t port delayMs (!repeats))

/-- The first section of `sys_timer_cancel`. -/
def sysTimerCancel (s : State) (thread pid t : Nat) : State :=
  if t < timerPoolMax ∧ s.owns pid t then
    (s.enter thread pid t (.cancelDetach t)).note (.cancelled t (s.slots t).stamp)
  else s

/-- The first section of `sys_watchdog_set`. -/
def sysWatchdogSet (s : State) (thread pid timeoutMs : Nat) : State :=
  match ownDog s pid with
  | some t =>
    if timeoutMs = 0 then (s.free t).enter thread pid t (.dogDetach t)
    else
      (s.setSlot t { s.slots t with word := timeoutMs }).enter thread pid t
        (.dogRefresh t timeoutMs)
  | none =>
    if timeoutMs = 0 then s
    else
      match freeSlot s timerPoolMax watchdogMax with
      | none => s
      | some t =>
        (s.take t pid timeoutMs).enter thread pid t (.dogRefresh t timeoutMs)

/-- One round of `timer_pool_cleanup` or `watchdog_cleanup`: the section that
looks at an entry.  A watchdog is freed there and then. -/
def scan (s : State) (thread pid t : Nat) : State :=
  if t < pooled then
    if s.owns pid t then
      if t < timerPoolMax then
        (s.enter thread pid t (.scanDetach t)).note (.cancelled t (s.slots t).stamp)
      else (s.free t).enter thread pid t (.scanDetach t)
    else s.setCall thread (some ⟨pid, 0, .scan (t + 1)⟩)
  else s.setCall thread none

/-- `timer_arm_in` or `timer_arm_periodic` under the lock of the heap, and
whether the timer is armed. -/
def arm (s : State) (t stamp now delayMs : Nat) (once : Bool) : State × Bool :=
  let deadline := (now + msToNs delayMs) % Timers.clockWord
  let period := if once then 0 else msToNs delayMs
  ({ s with
      wheel := Timers.armSection s.wheel t deadline period
      armedBy := update s.armedBy t stamp },
    (Timers.armLocked s.wheel t deadline period).2)

/-- `timer_cancel`. -/
def detach (s : State) (t : Nat) : State :=
  { s with wheel := Timers.timerCancel s.wheel t }

/-- The next section of a call.  Where the heap is full, `grown` says that it
could be grown, and the arming is tried again. -/
def advance (s : State) (thread : Nat) (call : Call) (now : Nat) (grown : Bool) : State :=
  match call.pc with
  | .setArm t port delayMs once =>
    let (s, ok) := arm s t call.stamp now delayMs once
    if ok then
      let s := s.setCall thread none
      if once then s.note (.started t call.stamp port) else s
    else if grown then s
    else s.setCall thread (some { call with pc := .setFail t })
  | .setFail t => (s.free t).setCall thread none
  | .cancelDetach t =>
    (detach s t).setCall thread (some { call with pc := .cancelFree t })
  | .cancelFree t => (s.free t).setCall thread none
  | .dogDetach t => (detach s t).setCall thread none
  | .dogRefresh t timeoutMs =>
    (detach s t).setCall thread (some { call with pc := .dogArm t timeoutMs })
  | .dogArm t timeoutMs =>
    let (s, ok) := arm s t call.stamp now timeoutMs true
    if ok then s.setCall thread none
    else if grown then s
    else s.setCall thread (some { call with pc := .dogFail t })
  | .dogFail t => (s.free t).setCall thread none
  | .scan t => scan s thread call.pid t
  | .scanDetach t =>
    (detach s t).setCall thread (some { call with
        pc := if t < timerPoolMax then .scanFree t else .scan (t + 1) })
  | .scanFree t =>
    (s.free t).setCall thread (some { call with pc := .scan (t + 1) })

/-- The callback of a CPU is over. -/
def finish (s : State) (cpu : Nat) : Option State :=
  (Timers.exec s.wheel (.call cpu)).map fun wheel =>
    ({ s with wheel := wheel } : State).setCallback cpu none

/-- The part of `enqueue_async` where the queue has room.  The struct can have
been closed meanwhile: then nobody receives the event. -/
def State.enqueue (s : State) (t port index : Nat) : State :=
  let count := update s.ipc.msgCount index (s.ipc.msgCount index + 1)
  let queued := { s with ipc := { s.ipc with msgCount := count } }
  if s.ipc.ports port = some index then
    queued.note (.posted t (s.slots t).stamp port)
  else queued

/-- The next access of `async_timer_fire`, or section of its
`ipc_post_kernel`. -/
def asyncTimerFire (s : State) (cpu t : Nat) : Option State :=
  match s.callbacks cpu with
  | none =>
    if (s.slots t).used then some (s.setCallback cpu (some .posting))
    else finish s cpu
  | some .posting =>
    match s.ipc.ports (s.slots t).word with
    | some index =>
      some (s.setCallback cpu (some (.allocating (s.slots t).word index)))
    | none => some (s.setCallback cpu (some .freeing))
  | some (.allocating port index) =>
    if s.ipc.irqFree = 0 then some (s.setCallback cpu (some .freeing))
    else
      some (({ s with ipc.irqFree := s.ipc.irqFree - 1 } : State).setCallback
        cpu (some (.enqueuing port index)))
  | some (.enqueuing port index) =>
    if portQueueMax ≤ s.ipc.msgCount index then
      -- the entry goes back to the pool
      some (({ s with ipc.irqFree := s.ipc.irqFree + 1 } : State).setCallback
        cpu (some .freeing))
    else some ((s.enqueue t port index).setCallback cpu (some .freeing))
  | some .freeing =>
    if (s.wheel.timers t).period = 0 then
      some (s.setCallback cpu (some .releasing))
    else finish s cpu
  | some .releasing => finish (s.free t) cpu
  | some (.killing _) => none

/-- The section of `watchdog_fire`, and the kill after it. -/
def watchdogFire (s : State) (cpu t : Nat) : Option State :=
  match s.callbacks cpu with
  | none =>
    if (s.slots t).used then
      some ((s.free t).setCallback cpu (some (.killing (s.slots t).ownerPid)))
    else finish (s.free t) cpu
  | some (.killing pid) => finish { s with killed := pid :: s.killed } cpu
  | some _ => none

/-- The next step of the callback that a CPU has called. -/
def callback (s : State) (cpu : Nat) : Option State :=
  match s.wheel.drains cpu with
  | some ⟨_, .calling t⟩ =>
    if t < timerPoolMax then asyncTimerFire s cpu t
    else if t < pooled then watchdogFire s cpu t
    else none
  | _ => none

/-- A section of the heap that is no step of a pooled timer's user or
callback. -/
def foreign (s : Timers.State) : Timers.Label → Bool
  | .armAt t _ | .armPeriodic t _ _ | .cancel t => pooled ≤ t
  | .call cpu =>
    match s.drains cpu with
    | some ⟨_, .calling t⟩ => pooled ≤ t
    | _ => false
  | _ => true

/-- The steps.  A thread is in one call at a time; `ipc` is what other code
makes of the ports. -/
inductive Label where
  | timerSet (thread pid : Nat) (port delayMs : UInt32) (repeats : Bool)
  | timerCancel (thread pid : Nat) (id : UInt32)
  | watchdogSet (thread pid : Nat) (timeoutMs : UInt32)
  | cleanup (thread pid : Nat)
  | advance (thread now : Nat) (grown : Bool)
  | callback (cpu : Nat)
  | wheel (label : Timers.Label)
  | ipc (ipc : Ipc)

/-- The state a step leaves, where it can be taken. -/
def exec (s : State) : Label → Option State
  | .timerSet thread pid port delayMs repeats =>
    if s.calls thread = none then
      some (sysTimerSet s thread pid port.toNat delayMs.toNat repeats)
    else none
  | .timerCancel thread pid id =>
    if s.calls thread = none then
      some (sysTimerCancel s thread pid id.toNat)
    else none
  | .watchdogSet thread pid timeoutMs =>
    if s.calls thread = none then
      some (sysWatchdogSet s thread pid timeoutMs.toNat)
    else none
  | .cleanup thread pid =>
    if s.calls thread = none then
      some (s.setCall thread (some ⟨pid, 0, .scan 0⟩))
    else none
  | .advance thread now grown =>
    (s.calls thread).map fun call => advance s thread call now grown
  | .callback cpu => callback s cpu
  | .wheel label =>
    if foreign s.wheel label then
      (Timers.exec s.wheel label).map fun wheel => { s with wheel := wheel }
    else none
  | .ipc ipc => some { s with ipc := ipc }

/-- A step takes a state to the next one. -/
def step (s : State) (label : Label) (s' : State) : Prop :=
  exec s label = some s'

/-- After `ipc_init` and `driver_syscalls_init`. -/
def initial : State where
  wheel := Timers.initial
  ipc := ⟨fun _ => none, fun _ => 0, ipcIrqPoolSize⟩
  slots _ := ⟨false, 0, 0, 0⟩
  calls _ := none
  callbacks _ := none
  armedBy _ := 0
  killed := []
  log := []

end MainDob.Kernel.AsyncTimers
