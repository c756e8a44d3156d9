/-
Purpose: The service registry of `kernel/registry.c` as a transition system: the
  table of names, the waits and the parked requests for a name, and the calls
  that register, withdraw and look up names, whose locked sections, wakes and
  starts interleave freely.
Trusted boundary: a section under `s_lock`, a wake of one record and a start or
  release of one parked request are one step each; the answers of the allocator,
  the timer heap, the thread table and the process table come with the step.  A
  thread is not killed inside `registry_wait`.
Main exports: Name, hashName, Entry
-/
import MainDob.Lib.Lending
import MainDob.Lib.Runs
import Mathlib.Logic.Function.Basic

namespace MainDob.Kernel.Registry

open Function (update)
open Lib

def registryNameMax : Nat := 64

def registryMax : Nat := 256

/-- A name in a buffer of `REGISTRY_NAME_MAX` characters with its NUL.  The
system calls and the boot flags cut every name to such a buffer, so that
`strlcpy` into another one copies it whole. -/
structure Name where
  bytes : List UInt8
  fits : bytes.length < registryNameMax
  text : 0 ∉ bytes
deriving DecidableEq

/-- `hash_name`: FNV-1a, never 0. -/
def hashName (name : Name) : BitVec 32 :=
  let h := name.bytes.foldl
    (fun h c => (h ^^^ c.toBitVec.setWidth 32) * 0x01000193#32) 0x811C9DC5#32
  if h = 0 then 1 else h

abbrev Pid := Int

/-- A call of the registry.  Every call has its own number. -/
abbrev CallId := Nat

/-- `entry_t`. -/
structure Entry where
  name : Name
  nameHash : BitVec 32
  portId : Nat
  ownerPid : Pid
  active : Bool
deriving DecidableEq

/-- `waiter_t`.  The private wait queue `wq` holds the record's own thread or
nobody: `queued`.  Its `node` is its place in `State.waiters`. -/
structure Waiter where
  name : Name
  nameHash : BitVec 32
  queued : Bool
deriving DecidableEq

/-- `parked_t`.  Its `node` is its place in `State.parked`. -/
structure Parked where
  name : Name
  nameHash : BitVec 32
  tid : Nat
  ownerPid : Pid
deriving DecidableEq

/-- `WAIT_OK` and `WAIT_TIMEOUT`. -/
inductive WaitResult where
  | ok
  | timeout
deriving DecidableEq, Repr

/-- The point `registry_wait` has reached, once its record is listed. -/
inductive WaitPoint where
  /-- In `scheduler_yield`. -/
  | asleep
  /-- Before its last locked section. -/
  | awake
deriving DecidableEq, Repr

/-- The point `drain_and_wake` has reached, with its batches. -/
inductive DrainPoint where
  /-- Before the locked section. -/
  | collecting
  /-- After it: the waits to wake, the requests to start, and whether a batch
  was full. -/
  | waking (waits : List CallId) (requests : List CallId) (again : Bool)
deriving DecidableEq, Repr

/-- The point `registry_cleanup_owner` has reached. -/
inductive CleanupPoint where
  /-- Before a section of the loop over the parked requests. -/
  | requests
  /-- After it: the requests to free, and whether the batch was full. -/
  | freeing (dead : List CallId) (again : Bool)
  /-- Before a section of the loop over the entries. -/
  | entries
  /-- Before a section that collects the waits for a name. -/
  | collecting (name : Name) (h : BitVec 32)
  /-- After it: the waits to wake, and whether the batch was full. -/
  | waking (name : Name) (h : BitVec 32) (waits : List CallId) (again : Bool)
deriving DecidableEq

/-- The stack frame of a call.  A parked request outlives its call: its frame
is the record on the heap and, afterwards, what became of its thread. -/
inductive Frame where
  /-- The call has not been made. -/
  | idle
  /-- In `registry_wait`, with the thread's `wait_result`. -/
  | waiting (record : Waiter) (timeoutMs : Nat) (waitResult : WaitResult)
      (point : WaitPoint)
  /-- `registry_wait` or `registry_find` returned this port. -/
  | found (port : Nat)
  /-- The request is parked. -/
  | parked (record : Parked)
  /-- Its thread was started, if the thread table still had it. -/
  | started (known : Bool)
  /-- Its record was freed with its owner. -/
  | discarded
  /-- In `drain_and_wake`, after the entry was installed. -/
  | drain (name : Name) (h : BitVec 32) (point : DrainPoint)
  /-- In `registry_cleanup_owner`. -/
  | cleanup (owner : Pid) (point : CleanupPoint)
  /-- Any other call returned. -/
  | returned (code : Int)
deriving DecidableEq

/-- What the locked sections and the wakes did, in their order. -/
inductive Event where
  /-- A process appeared in the process table, or left it. -/
  | process (pid : Pid) (alive : Bool)
  /-- A call installed the name with this port and owner. -/
  | registered (call : CallId) (name : Name) (port : Nat) (owner : Pid)
  /-- A call of this owner, or its cleanup, took the name out. -/
  | withdrawn (call : CallId) (name : Name) (owner : Pid)
  /-- A call looked the name up and returns this port. -/
  | looked (call : CallId) (name : Name) (port : Nat)
  /-- A wait, or a request of a process, is listed under the name. -/
  | enlisted (call : CallId) (name : Name) (owner : Option Pid)
  /-- The cleanup of a process began. -/
  | cleaning (call : CallId) (owner : Pid)
  /-- A drain or a cleanup took it out of its list. -/
  | taken (call taker : CallId)
  /-- The taker woke the wait, or started or freed the request. -/
  | served (call taker : CallId)
  /-- The wait made its last section. -/
  | ended (call : CallId)
deriving DecidableEq

/-- The table, the two lists and the calls.  `log` is not in the source: it
keeps the order of the sections and wakes. -/
structure State where
  entries : Nat → Entry
  count : Nat
  waiters : List CallId
  parked : List CallId
  alive : Pid → Bool
  frames : CallId → Frame
  log : List Event

/-- A slot of the table that was never used. -/
def zeroEntry : Entry := ⟨⟨[], by decide, by simp⟩, 0, 0, 0, false⟩

/-- `registry_init`, with only the kernel in the process table. -/
def initial : State where
  entries := fun _ => zeroEntry
  count := 0
  waiters := []
  parked := []
  alive := fun pid => pid == 0
  frames := fun _ => .idle
  log := []

/-- The frame of one call is replaced. -/
def State.setFrame (s : State) (call : CallId) (frame : Frame) : State :=
  { s with frames := update s.frames call frame }

/-- An entry is written. -/
def State.setEntry (s : State) (i : Nat) (entry : Entry) : State :=
  { s with entries := update s.entries i entry }

/-- Something goes on record. -/
def State.record (s : State) (event : Event) : State :=
  { s with log := s.log ++ [event] }

/-- `process_get_by_pid`, as far as it finds something. -/
def processGetByPid (s : State) (pid : Pid) : Bool :=
  pid == 0 || s.alive pid

/-- `entry_find`: the index of the first active entry of that name. -/
def entryFind (s : State) (name : Name) (h : BitVec 32) : Option Nat :=
  (List.range s.count).find? fun i =>
    (s.entries i).active && (s.entries i).nameHash == h && (s.entries i).name == name

/-- The port of a name, 0 where it has none. -/
def portOf (s : State) (name : Name) (h : BitVec 32) : Nat :=
  match entryFind s name h with
  | some i => (s.entries i).portId
  | none => 0

/-- `entry_alloc`: the index of a free entry, and the entries in use with
it. -/
def entryAlloc (s : State) : Option (Nat × Nat) :=
  match (List.range s.count).find? fun i => !(s.entries i).active with
  | some i => some (i, s.count)
  | none => if s.count < registryMax then some (s.count, s.count + 1) else none

/-- The wait record is under the name. -/
def waitsFor (name : Name) (h : BitVec 32) : Frame → Bool
  | .waiting record _ _ _ => record.nameHash == h && record.name == name
  | _ => false

/-- The parked request is under the name. -/
def parksFor (name : Name) (h : BitVec 32) : Frame → Bool
  | .parked record => record.nameHash == h && record.name == name
  | _ => false

/-- The parked request belongs to the process. -/
def parkedBy (owner : Pid) : Frame → Bool
  | .parked record => record.ownerPid == owner
  | _ => false

/-- The sizes of the batches of waits and of requests. -/
def waitBatch : Nat := 16
def parkBatch : Nat := 8

/-- `collect_name_waiters`: what it takes, and what stays. -/
def collectNameWaiters (s : State) (name : Name) (h : BitVec 32) : List CallId × List CallId :=
  collect (fun c => waitsFor name h (s.frames c)) waitBatch s.waiters

/-- `collect_parked`: what it takes, and what stays. -/
def collectParked (s : State) (name : Name) (h : BitVec 32) : List CallId × List CallId :=
  collect (fun c => parksFor name h (s.frames c)) parkBatch s.parked

/-- `wait_queue_wake_all` on the queue of a record: its thread, when it is
there, leaves it with `WAIT_OK`. -/
def Frame.wake : Frame → Frame
  | .waiting record timeoutMs waitResult point =>
    .waiting { record with queued := false } timeoutMs
      (if record.queued then .ok else waitResult) point
  | frame => frame

/-- One step of `drain_and_wake`; `known` says whether the thread table still
has the thread of a request. -/
def drainStep (s : State) (call : CallId) (name : Name) (h : BitVec 32)
    (known : Bool) : DrainPoint → State
  | .collecting =>
    let (waits, waiters) := collectNameWaiters s name h
    let (requests, parked) := collectParked s name h
    { s with
      waiters := waiters
      parked := parked
      frames := update s.frames call (.drain name h (.waking waits
        requests (waitBatch ≤ waits.length || parkBatch ≤ requests.length)))
      log := s.log ++ (waits ++ requests).map fun c => .taken c call }
  | .waking (c :: waits) requests again =>
    ((s.setFrame c (s.frames c).wake).setFrame call
      (.drain name h (.waking waits requests again))).record (.served c call)
  | .waking [] (c :: requests) again =>
    ((s.setFrame c (.started known)).setFrame call
      (.drain name h (.waking [] requests again))).record (.served c call)
  | .waking [] [] true => s.setFrame call (.drain name h .collecting)
  | .waking [] [] false => s.setFrame call (.returned 0)

/-- `registry_register` up to its drain. -/
def registryRegister (s : State) (call : CallId) (name : Name) (portId : Nat)
    (ownerPid : Pid) : State :=
  if name.bytes = [] then s.setFrame call (.returned (-1))
  else
    let h := hashName name
    let drained (s : State) : State :=
      (s.setFrame call (.drain name h .collecting)).record (.registered call name portId ownerPid)
    match entryFind s name h with
    | some i =>
      -- refused only where the holder is another process that still lives
      if (s.entries i).ownerPid ≠ ownerPid ∧ processGetByPid s (s.entries i).ownerPid then
        s.setFrame call (.returned (-3))
      else
        drained (s.setEntry i { s.entries i with portId := portId, ownerPid := ownerPid })
    | none =>
      match entryAlloc s with
      | none => s.setFrame call (.returned (-2))
      | some (i, count) =>
        drained ({ s with count := count }.setEntry i
          ⟨name, h, portId, ownerPid, true⟩)

/-- `registry_unregister`. -/
def registryUnregister (s : State) (call : CallId) (name : Name) (ownerPid : Pid) : State :=
  match entryFind s name (hashName name) with
  | some i =>
    if (s.entries i).ownerPid = ownerPid then
      ((s.setEntry i { s.entries i with active := false }).setFrame call
        (.returned 0)).record (.withdrawn call name ownerPid)
    else s.setFrame call (.returned 0)
  | none => s.setFrame call (.returned 0)

/-- `registry_find`. -/
def registryFind (s : State) (call : CallId) (name : Name) : State :=
  (s.setFrame call (.found (portOf s name (hashName name)))).record
    (.looked call name (portOf s name (hashName name)))

/-- The first section of `registry_wait`, with its `wait_prepare`; `armed` says
whether the timer heap took the sleep timer. -/
def registryWait (s : State) (call : CallId) (name : Name) (timeoutMs : Nat)
    (armed : Bool) : State :=
  let h := hashName name
  match entryFind s name h with
  | some i =>
    (s.setFrame call (.found (s.entries i).portId)).record (.looked call name (s.entries i).portId)
  | none =>
    let late := decide (0 < timeoutMs) && !armed
    ({ s with waiters := s.waiters ++ [call] }.setFrame call
      (.waiting ⟨name, h, !late⟩ timeoutMs
        (if late then .timeout else .ok) .asleep)).record (.enlisted call name none)

/-- The last section of `registry_wait`. -/
def waitEnd (s : State) (call : CallId) (record : Waiter) : State :=
  let port := portOf s record.name record.nameHash
  (({ s with waiters := s.waiters.erase call }.setFrame call
    (.found port)).record (.looked call record.name port)).record (.ended call)

/-- One step of `registry_wait` after its first section.  A thread that is
still in its wait queue sleeps on. -/
def waitStep (s : State) (call : CallId) (record : Waiter) (timeoutMs : Nat)
    (waitResult : WaitResult) : WaitPoint → Option State
  | .asleep =>
    if record.queued then none
    else some (s.setFrame call (.waiting record timeoutMs waitResult .awake))
  | .awake => some (waitEnd s call record)

/-- `registry_park_or_start`; `memory` says whether the heap had a record. -/
def registryParkOrStart (s : State) (call : CallId) (name : Name) (tid : Nat)
    (ownerPid : Pid) (memory : Bool) : State :=
  if name.bytes = [] then s.setFrame call (.started true)
  else
    let h := hashName name
    if (entryFind s name h).isSome ∨ memory = false then
      s.setFrame call (.started true)
    else
      ({ s with parked := s.parked ++ [call] }.setFrame call
        (.parked ⟨name, h, tid, ownerPid⟩)).record (.enlisted call name (some ownerPid))

/-- One step of `registry_cleanup_owner`. -/
def cleanupStep (s : State) (call : CallId) (owner : Pid) : CleanupPoint → State
  | .requests =>
    let (dead, parked) :=
      collect (fun c => parkedBy owner (s.frames c)) parkBatch s.parked
    { s with
      parked := parked
      frames := update s.frames call
        (.cleanup owner (.freeing dead (parkBatch ≤ dead.length)))
      log := s.log ++ dead.map fun c => .taken c call }
  | .freeing (c :: dead) again =>
    ((s.setFrame c .discarded).setFrame call
      (.cleanup owner (.freeing dead again))).record (.served c call)
  | .freeing [] true => s.setFrame call (.cleanup owner .requests)
  | .freeing [] false => s.setFrame call (.cleanup owner .entries)
  | .entries =>
    match (List.range s.count).find? fun i =>
        (s.entries i).active && (s.entries i).ownerPid == owner with
    | none => s.setFrame call (.returned 0)
    | some i =>
      ((s.setEntry i { s.entries i with active := false }).setFrame call
        (.cleanup owner (.collecting (s.entries i).name
          (s.entries i).nameHash))).record (.withdrawn call (s.entries i).name owner)
  | .collecting name h =>
    let (waits, waiters) := collectNameWaiters s name h
    { s with
      waiters := waiters
      frames := update s.frames call
        (.cleanup owner (.waking name h waits (waitBatch ≤ waits.length)))
      log := s.log ++ waits.map fun c => .taken c call }
  | .waking name h (c :: waits) again =>
    ((s.setFrame c (s.frames c).wake).setFrame call
      (.cleanup owner (.waking name h waits again))).record (.served c call)
  | .waking name h [] true =>
    s.setFrame call (.cleanup owner (.collecting name h))
  | .waking _ _ [] false => s.setFrame call (.cleanup owner .entries)

/-- `scheduler_sleep_timer_fire` for the thread of a wait: a thread in its wait
queue leaves it with `WAIT_TIMEOUT`. -/
def timerFire (s : State) (call : CallId) : Option State :=
  match s.frames call with
  | .waiting record timeoutMs _ .asleep =>
    if 0 < timeoutMs ∧ record.queued then
      some (s.setFrame call (.waiting { record with queued := false } timeoutMs .timeout
          .asleep))
    else none
  | _ => none

/-- A wake-up that is not for this wait: the thread runs on and stays in its
wait queue. -/
def strayWake (s : State) (call : CallId) : Option State :=
  match s.frames call with
  | .waiting record timeoutMs waitResult .asleep =>
    some (s.setFrame call (.waiting record timeoutMs waitResult .awake))
  | _ => none

/-- The steps: the first section of each call, one more step of a call, what
happens to a sleeping thread, and a change of the process table. -/
inductive Label where
  | register (call : CallId) (name : Name) (portId : Nat) (ownerPid : Pid)
  | unregister (call : CallId) (name : Name) (ownerPid : Pid)
  | find (call : CallId) (name : Name)
  | wait (call : CallId) (name : Name) (timeoutMs : Nat) (armed : Bool)
  | park (call : CallId) (name : Name) (tid : Nat) (ownerPid : Pid)
      (memory : Bool)
  | cleanup (call : CallId) (owner : Pid)
  | go (call : CallId) (known : Bool)
  | fire (call : CallId)
  | stray (call : CallId)
  | process (pid : Pid) (alive : Bool)
deriving DecidableEq

/-- One more step of a call that has begun. -/
def goOn (s : State) (call : CallId) (known : Bool) : Option State :=
  match s.frames call with
  | .waiting record timeoutMs waitResult point =>
    waitStep s call record timeoutMs waitResult point
  | .drain name h point => some (drainStep s call name h known point)
  | .cleanup owner point => some (cleanupStep s call owner point)
  | _ => none

/-- The first section of a call is taken by a call that has not been made. -/
def begin (s : State) (call : CallId) (after : State) : Option State :=
  if s.frames call = .idle then some after else none

/-- One step. -/
def exec (s : State) : Label → Option State
  | .register call name portId ownerPid =>
    begin s call (registryRegister s call name portId ownerPid)
  | .unregister call name ownerPid =>
    begin s call (registryUnregister s call name ownerPid)
  | .find call name => begin s call (registryFind s call name)
  | .wait call name timeoutMs armed =>
    begin s call (registryWait s call name timeoutMs armed)
  | .park call name tid ownerPid memory =>
    begin s call (registryParkOrStart s call name tid ownerPid memory)
  | .cleanup call owner =>
    begin s call ((s.setFrame call (.cleanup owner .requests)).record (.cleaning call owner))
  | .go call known => goOn s call known
  | .fire call => timerFire s call
  | .stray call => strayWake s call
  | .process pid alive =>
    some ({ s with alive := update s.alive pid alive }.record
      (.process pid alive))

/-- The transition relation. -/
def step (s : State) (label : Label) (s' : State) : Prop :=
  exec s label = some s'

/-- Is the call inside `registry_wait`, so that its record is on its stack? -/
def Frame.inWait : Frame → Prop
  | .waiting .. => True
  | _ => False

/-- Is the request parked, so that its record is on the heap? -/
def Frame.inPark : Frame → Prop
  | .parked _ => True
  | _ => False

/-- The wait records a call has taken and not woken yet. -/
def Frame.waits : Frame → List CallId
  | .drain _ _ (.waking waits _ _) => waits
  | .cleanup _ (.waking _ _ waits _) => waits
  | _ => []

/-- The requests a call has taken and not started or freed yet. -/
def Frame.requests : Frame → List CallId
  | .drain _ _ (.waking _ requests _) => requests
  | .cleanup _ (.freeing dead _) => dead
  | _ => []

/-- The wait records as loans. -/
def lentWaits (s : State) : Lending CallId CallId :=
  .ofFrames Frame.inWait Frame.waits s.waiters s.frames

/-- The parked requests as loans. -/
def lentRequests (s : State) : Lending CallId CallId :=
  .ofFrames Frame.inPark Frame.requests s.parked s.frames

end MainDob.Kernel.Registry
