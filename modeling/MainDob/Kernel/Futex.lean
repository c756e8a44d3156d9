/-
Purpose: The futexes of `kernel/proc/futex.c` as a transition system: hashed
  buckets that are intrusive wait queues, waits with and without a timeout, and
  wakes, whose walk over the threads they took out runs after the bucket lock is
  released and so interleaves with everything else.
Trusted boundary: a section under a bucket lock and one round of a walk are one
  step each; the word a wait reads, and whether the timer heap takes its timer,
  are given with the step.
Main exports: Tid, State, Walk
-/
import Mathlib.Algebra.Ring.Nat
import MainDob.Lib.Intrusive
import MainDob.Lib.Runs

namespace MainDob.Kernel.Futex

open Function (update)
open Lib

def maxThreads : Nat := 1024

abbrev Tid := Fin maxThreads

/-- The rounds a walk over a wait queue can take before it must have met a
thread twice. -/
def rounds : Nat := maxThreads + 1

def futexBuckets : Nat := 128

inductive ThreadState where
  | running
  | ready
  | blocked
deriving DecidableEq, Repr

/-- `WAIT_OK` and `WAIT_TIMEOUT`. -/
inductive WaitResult where
  | ok
  | timeout
deriving DecidableEq, Repr

/-- `FUTEX_OK` and `FUTEX_E*`. -/
inductive FutexCode where
  | ok
  | eagain
  | etimedout
  | efault
deriving DecidableEq, Repr

/-- A wake past its locked section: the pointer `t` of the closing loop.
`rest` is not in the source: it lists the threads that were taken out and that
the loop has not reached yet. -/
structure Walk where
  cur : Option Tid
  rest : List Tid
deriving DecidableEq, Repr

/-- The fields of the threads and the buckets.  `addr` is not in the source:
it is the address of a thread's last wait, which the kernel does not keep. -/
structure State where
  owner : Tid → Nat
  next : Tid → Option Tid
  blockedOn : Tid → Option Nat
  status : Tid → ThreadState
  result : Tid → WaitResult
  timer : Tid → Bool
  expiring : Tid → Bool
  buckets : Nat → Queue Tid
  walks : Tid → Option Walk
  addr : Tid → Nat

/-- `futex_init`: the buckets are empty, every thread runs. -/
def initial (owner : Tid → Nat) : State where
  owner := owner
  next := fun _ => none
  blockedOn := fun _ => none
  status := fun _ => .running
  result := fun _ => .ok
  timer := fun _ => false
  expiring := fun _ => false
  buckets := fun _ => ⟨none, none⟩
  walks := fun _ => none
  addr := fun _ => 0

/-- `bucket_for`, in 32 bits. -/
def bucketFor (process uaddr : Nat) : Nat :=
  ((process ^^^ uaddr ^^^ (uaddr >>> 13)) * 2654435761 % 2 ^ 32) % futexBuckets

/-- `scheduler_unblock`: the timer is cancelled, a blocked thread is made
ready, any other is left alone. -/
def schedulerUnblock (s : State) (t : Tid) : State :=
  { s with
    timer := update s.timer t false
    status := update s.status t
      (if s.status t = .blocked then .ready else s.status t) }

/-- `futex_wait` up to its yield.  Without a code the thread goes to sleep;
the outer `none` is a walk over a bucket that does not end. -/
def futexWait (s : State) (t : Tid) (uaddr val timeoutMs : Nat)
    (word : Option Nat) (armed : Bool) : Option (State × Option FutexCode) :=
  if uaddr % 4 ≠ 0 then some (s, some .efault)
  else
    let b := bucketFor (s.owner t) uaddr
    match word with
    | none => some (s, some .efault)
    | some cur =>
      if cur ≠ val then some (s, some .eagain)
      else
        let (next, queue) := enqueueTail s.next (s.buckets b) t
        if 0 < timeoutMs ∧ armed = false then
          -- the timer heap is full: undo, under the same lock
          match unlink next queue t rounds with
          | none => none
          | some (next, queue, found) =>
            some ({ s with
              next := next
              buckets := update s.buckets b queue
              blockedOn := update s.blockedOn t
                (if found then none else some b)
              result := update s.result t .ok
              status := update s.status t .running
              addr := update s.addr t uaddr }, some .etimedout)
        else
          some ({ s with
            next := next
            buckets := update s.buckets b queue
            blockedOn := update s.blockedOn t (some b)
            result := update s.result t .ok
            status := update s.status t .blocked
            timer := update s.timer t
              (if 0 < timeoutMs then true else s.timer t)
            addr := update s.addr t uaddr }, none)

/-- The locked section of `futex_wake`, with the number it returns: the
threads of the caller's process leave the bucket, at most `count` of them. -/
def futexWake (s : State) (t : Tid) (uaddr count : Nat) : Option (State × Nat) :=
  if uaddr % 4 ≠ 0 then some (s, 0)
  else
    let process := s.owner t
    let b := bucketFor process uaddr
    match extract (fun u => s.owner u == process) count rounds s.next
        (s.buckets b) with
    | none => none
    | some (next, queue, chain, woken) =>
      let taken := trail next rounds chain.head
      some ({ s with
        next := next
        buckets := update s.buckets b queue
        blockedOn := fun u => if u ∈ taken then none else s.blockedOn u
        walks := update s.walks t (some ⟨chain.head, taken⟩) },
        woken)

/-- One round of the closing loop of `futex_wake`: read the link, clear it,
unblock the thread. -/
def unblockNext (s : State) (t : Tid) : Option State :=
  match s.walks t with
  | none => none
  | some ⟨none, _⟩ => some { s with walks := update s.walks t none }
  | some ⟨some u, rest⟩ =>
    some (schedulerUnblock { s with
      next := update s.next u none
      walks := update s.walks t
        (some ⟨s.next u, rest.erase u⟩) } u)

/-- `scheduler_sleep_timer_fire` up to its test of `blocked_on`. -/
def timerFire (s : State) (t : Tid) : Option State :=
  if s.timer t then
    let fired := { s with timer := update s.timer t false }
    match s.blockedOn t with
    | some _ =>
      some { fired with expiring := update s.expiring t true }
    | none => some (schedulerUnblock fired t)
  else none

/-- The rest of `scheduler_sleep_timer_fire`: `blocked_on` is read again by
`wait_queue_remove_thread`. -/
def timerExpire (s : State) (t : Tid) : Option State :=
  if s.expiring t then
    let expired := { s with
      expiring := update s.expiring t false
      result := update s.result t .timeout }
    match s.blockedOn t with
    | none => some (schedulerUnblock expired t)
    | some b =>
      match unlink s.next (s.buckets b) t rounds with
      | none => none
      | some (next, queue, found) =>
        some (schedulerUnblock { expired with
          next := next
          buckets := update s.buckets b queue
          blockedOn := update s.blockedOn t
            (if found then none else some b) } t)
  else none

inductive Label where
  | wait (t : Tid) (uaddr val timeoutMs : Nat) (word : Option Nat)
      (armed : Bool)
  | wake (t : Tid) (uaddr count : Nat)
  | unblock (t : Tid)
  | fire (t : Tid)
  | expire (t : Tid)
  /-- A ready thread is given a CPU and its `futex_wait` returns. -/
  | resume (t : Tid)
deriving DecidableEq, Repr

/-- A thread that can enter a futex call. -/
def Idle (s : State) (t : Tid) : Prop :=
  s.status t = .running ∧ s.walks t = none

instance (s : State) (t : Tid) : Decidable (Idle s t) :=
  inferInstanceAs (Decidable (_ ∧ _))

/-- The state after a label, if the label can be taken. -/
def exec (s : State) : Label → Option State
  | .wait t uaddr val timeoutMs word armed =>
    if Idle s t then
      (futexWait s t uaddr val timeoutMs word armed).map Prod.fst
    else none
  | .wake t uaddr count =>
    if Idle s t then (futexWake s t uaddr count).map Prod.fst else none
  | .unblock t => unblockNext s t
  | .fire t => timerFire s t
  | .expire t => timerExpire s t
  | .resume t =>
    if s.status t = .ready then
      some { s with
        status := update s.status t .running
        timer := update s.timer t false }
    else none

/-- The transition relation of the futexes. -/
def step (first : State) (label : Label) (last : State) : Prop :=
  exec first label = some last

end MainDob.Kernel.Futex
