/-
Purpose: The mutexes of kernel/sync/mutex.c with priority inheritance:
  lock_internal, mutex_trylock, mutex_unlock, mutex_release_all_owned, the wait
  queues under them, and thread_boost_by_tid of kernel/proc/thread.c,
  interleaved section by section.
Trusted boundary: a section under one lock is one step; so are the walk of
  thread_boost_by_tid, the loop that reads the boosts of the owned mutexes, and
  a wake-up with its dequeue; priorities change only through these calls
Main exports: Phase, Thread, Mutex
-/
import Mathlib.Data.List.Nodup
import Mathlib.Algebra.Ring.Nat
import Mathlib.Logic.Function.Basic
import MainDob.Lib.Runs

namespace MainDob.Kernel.Mutexes

open Lib

def maxThreads : Nat := 1024

/-- `SCHED_NUM_PRIORITIES`. -/
def numPriorities : Nat := 4

/-- `THREAD_MAX_OWNED_MUTEXES`. -/
def maxOwnedMutexes : Nat := 16

/-- `PI_CHAIN_MAX_DEPTH`. -/
def chainMaxDepth : Nat := 8

/-- `UINT32_MAX`, the boost of a mutex that nobody has asked for. -/
def noBoost : Nat := 2 ^ 32 - 1

/-- Where a thread stands in the code of the mutexes. -/
inductive Phase where
  /-- In no call. -/
  | idle
  /-- In `lock_internal`, with the guard held and its own priority read. -/
  | registering (m req : Nat)
  /-- In the wait queue, before `thread_boost_by_tid`. -/
  | boosting (m : Nat) (owner : Option Nat) (req : Nat)
  /-- Past the boost, in `scheduler_yield`. -/
  | waiting (m : Nat)
  /-- Woken, about to take the guard again. -/
  | retrying (m : Nat)
  /-- In `mutex_unlock`, the guard released. -/
  | releasing (m : Nat)
  /-- In `recompute_owner_priority`, the boosts read. -/
  | applying (m eff : Nat)
  /-- In `mutex_unlock`, before `wait_queue_wake_one`. -/
  | waking (m : Nat)
  /-- Dead; `mutex_release_all_owned` stands before its next mutex. -/
  | reaping
  /-- Dead, with an orphan mutex freed, before `wait_queue_wake_all`. -/
  | orphaning (m : Nat)
deriving DecidableEq, Repr

/-- A `thread_t` as the mutexes see it.  `blocked` and `dead` are its state,
`timedOut` its wait result, `owned` the array of owned mutexes. -/
structure Thread where
  base : Nat
  priority : Nat
  dead : Bool
  blocked : Bool
  timedOut : Bool
  owned : List Nat
  untracked : Nat
  waitingOn : Option Nat
  waitingOwner : Option Nat
  phase : Phase
deriving DecidableEq, Repr

/-- A `mutex_t`; `owner` is `locked` and `owner_tid` in one. -/
structure Mutex where
  guard : Bool
  owner : Option Nat
  boostPrio : Nat
  waiters : List Nat
deriving DecidableEq, Repr

/-- `mutex_init`. -/
def Mutex.initial : Mutex :=
  { guard := false, owner := none, boostPrio := noBoost, waiters := [] }

/-- `s_thread_table` and the mutexes by number. -/
structure State where
  table : List (Option Thread)
  mutex : Nat → Mutex

def initial : State where
  table := List.replicate maxThreads none
  mutex := fun _ => .initial

/-- The thread of a TID. -/
def threadAt (table : List (Option Thread)) (t : Nat) : Option Thread :=
  table.getD t none

def State.thread (s : State) (t : Nat) : Option Thread := threadAt s.table t

def State.setThread (s : State) (t : Nat) (th : Thread) : State :=
  { s with table := s.table.set t (some th) }

def State.setMutex (s : State) (m : Nat) (mx : Mutex) : State :=
  { s with mutex := Function.update s.mutex m mx }

/-- A new thread. -/
def Thread.fresh (base : Nat) : Thread where
  base := base
  priority := base
  dead := false
  blocked := false
  timedOut := false
  owned := []
  untracked := 0
  waitingOn := none
  waitingOwner := none
  phase := .idle

/-! ### Priorities -/

/-- `scheduler_set_priority`, its queues apart. -/
def Thread.setPriority (th : Thread) (prio : Nat) : Thread :=
  if numPriorities ≤ prio then th else { th with priority := prio }

/-- What `recompute_owner_priority` reads: the base priority and the boosts of
the owned mutexes. -/
def effectivePriority (s : State) (th : Thread) : Nat :=
  th.owned.foldl (fun eff m => min eff (s.mutex m).boostPrio) th.base

/-- The loop of `thread_boost_by_tid` from `cursor` on. -/
def boostWalk (tid prio : Nat) : Nat → Nat → List (Option Thread) → List (Option Thread)
  | 0, _, table => table
  | depth + 1, cursor, table =>
    if cursor = 0 ∨ maxThreads ≤ cursor then table
    else
      match threadAt table cursor with
      | none => table
      | some owner =>
        if owner.priority ≤ prio then table
        else
          let table := table.set cursor (some (owner.setPriority prio))
          if owner.blocked = false ∨ owner.waitingOn = none then table
          else
            match owner.waitingOwner with
            | none => table
            | some next =>
              if next = cursor ∨ next = tid then table
              else boostWalk tid prio depth next table

/-- `thread_boost_by_tid`; no TID stands for -1. -/
def threadBoostByTid (table : List (Option Thread)) (tid : Option Nat)
    (prio : Nat) : List (Option Thread) :=
  match tid with
  | none => table
  | some tid => boostWalk tid prio chainMaxDepth tid table

/-! ### Ownership -/

/-- `track_ownership`. -/
def State.track (s : State) (m t : Nat) (th : Thread) : State :=
  let th :=
    if th.owned.length < maxOwnedMutexes then
      { th with owned := th.owned ++ [m] }
    else { th with untracked := th.untracked + 1 }
  (s.setMutex m { s.mutex m with owner := some t }).setThread t
    { th with waitingOn := none, phase := .idle }

/-- `untrack_ownership`: the last entry takes the place of the mutex. -/
def untrack (th : Thread) (m : Nat) : Thread :=
  match th.owned.findIdx? (· == m), th.owned.getLast? with
  | some i, some last => { th with owned := (th.owned.set i last).dropLast }
  | _, _ => { th with untracked := th.untracked - 1 }

/-- A thread leaves its wait queue, woken or by its timer. -/
def Thread.wake (th : Thread) (timedOut : Bool) : Thread :=
  { th with blocked := false, timedOut }

/-- `wait_queue_wake_one`. -/
def State.wakeOne (s : State) (m : Nat) : State :=
  match (s.mutex m).waiters with
  | [] => s
  | head :: rest =>
    let s := s.setMutex m { s.mutex m with waiters := rest }
    match s.thread head with
    | none => s
    | some th => s.setThread head (th.wake false)

/-- Wake the threads of a chain. -/
def wakeEach (table : List (Option Thread)) : List Nat → List (Option Thread)
  | [] => table
  | head :: rest =>
    match threadAt table head with
    | none => wakeEach table rest
    | some th => wakeEach (table.set head (some (th.wake false))) rest

/-- `wait_queue_wake_all`. -/
def State.wakeAll (s : State) (m : Nat) : State :=
  { s.setMutex m { s.mutex m with waiters := [] } with
    table := wakeEach s.table (s.mutex m).waiters }

/-- `wait_queue_remove_thread`. -/
def State.unqueue (s : State) (m t : Nat) : State :=
  s.setMutex m { s.mutex m with waiters := (s.mutex m).waiters.erase t }

/-- `thread_destroy` takes a thread out of the queue that it is in. -/
def State.leaveQueue (s : State) (t : Nat) (th : Thread) : State :=
  match th.blocked, th.waitingOn with
  | true, some m => s.unqueue m t
  | _, _ => s

/-! ### Sections -/

inductive Label where
  /-- A thread is created. -/
  | spawn (t base : Nat)
  /-- `lock_internal` takes the guard. -/
  | lock (t m : Nat)
  /-- `lock_internal` records its request, queues up and drops the guard.  A
  timer that cannot be armed is a `timeout` right after it. -/
  | register (t : Nat)
  /-- `thread_boost_by_tid`. -/
  | boost (t : Nat)
  /-- The thread runs again after its wait. -/
  | resume (t : Nat)
  /-- `mutex_trylock`. -/
  | trylock (t m : Nat)
  /-- `mutex_unlock` up to the release of the guard. -/
  | unlock (t m : Nat)
  /-- `recompute_owner_priority` reads the boosts. -/
  | recompute (t : Nat)
  /-- `recompute_owner_priority` sets the priority. -/
  | apply (t : Nat)
  /-- `wait_queue_wake_one` at the end of `mutex_unlock`. -/
  | wake (t : Nat)
  /-- The timer of a waiting thread fires. -/
  | timeout (t : Nat)
  /-- `thread_exit` or `thread_destroy`. -/
  | die (t : Nat)
  /-- `mutex_release_all_owned` frees the last of the owned mutexes. -/
  | orphan (t : Nat)
  /-- `wait_queue_wake_all` on a freed mutex. -/
  | wakeAll (t : Nat)
  /-- `reap_detach`. -/
  | reaped (t : Nat)
deriving DecidableEq, Repr

/-- What a section does; absent when the thread does not stand before it, or
when the guard of the mutex is taken. -/
def exec (s : State) : Label → Option State
  | .spawn t base =>
    if t < s.table.length ∧ s.thread t = none ∧ base < numPriorities then
      some (s.setThread t (.fresh base))
    else none
  | .lock t m =>
    (s.thread t).bind fun th =>
      if (th.phase = .idle ∨ th.phase = .retrying m) ∧ (s.mutex m).guard = false then
        match (s.mutex m).owner with
        | none => some (s.track m t th)
        | some _ =>
          some ((s.setMutex m { s.mutex m with guard := true }).setThread t
            { th with phase := .registering m th.priority })
      else none
  | .register t =>
    (s.thread t).bind fun th =>
      match th.phase with
      | .registering m req =>
        some ((s.setMutex m { s.mutex m with
            guard := false
            boostPrio := if req < (s.mutex m).boostPrio then req
              else (s.mutex m).boostPrio
            waiters := (s.mutex m).waiters ++ [t] }).setThread t
          { th with
            blocked := true
            timedOut := false
            waitingOn := some m
            waitingOwner := (s.mutex m).owner
            phase := .boosting m (s.mutex m).owner req })
      | _ => none
  | .boost t =>
    (s.thread t).bind fun th =>
      match th.phase with
      | .boosting m owner req =>
        let s := { s with table := threadBoostByTid s.table owner req }
        (s.thread t).map fun th =>
          s.setThread t { th with phase := .waiting m }
      | _ => none
  | .resume t =>
    (s.thread t).bind fun th =>
      match th.phase with
      | .waiting m =>
        if th.blocked then none
        else
          some (s.setThread t { th with
              waitingOn := none
              waitingOwner := none
              phase := if th.timedOut then .idle else .retrying m })
      | _ => none
  | .trylock t m =>
    (s.thread t).bind fun th =>
      if th.phase = .idle ∧ (s.mutex m).guard = false then
        match (s.mutex m).owner with
        | none => some (s.track m t th)
        | some _ => some s
      else none
  | .unlock t m =>
    (s.thread t).bind fun th =>
      if th.phase = .idle ∧ (s.mutex m).guard = false then
        if (s.mutex m).owner = some t then
          some ((s.setMutex m { s.mutex m with
              owner := none
              boostPrio := noBoost }).setThread t
            { untrack th m with phase := .releasing m })
        else some s
      else none
  | .recompute t =>
    (s.thread t).bind fun th =>
      match th.phase with
      | .releasing m =>
        some (s.setThread t { th with phase := .applying m (effectivePriority s th) })
      | _ => none
  | .apply t =>
    (s.thread t).bind fun th =>
      match th.phase with
      | .applying m eff =>
        some (s.setThread t { th.setPriority eff with phase := .waking m })
      | _ => none
  | .wake t =>
    (s.thread t).bind fun th =>
      match th.phase with
      | .waking m =>
        some ((s.wakeOne m).setThread t { th with phase := .idle })
      | _ => none
  | .timeout t =>
    (s.thread t).bind fun th =>
      match th.waitingOn with
      | some m =>
        if th.blocked then
          some ((s.unqueue m t).setThread t (th.wake true))
        else none
      | none => none
  | .die t =>
    (s.thread t).bind fun th =>
      match th.phase with
      | .registering _ _ => none
      | .reaping => none
      | .orphaning _ => none
      | _ =>
        some ((s.leaveQueue t th).setThread t
          { th with dead := true, blocked := false, phase := .reaping })
  | .orphan t =>
    (s.thread t).bind fun th =>
      match th.phase, th.owned.getLast? with
      | .reaping, some m =>
        if (s.mutex m).guard = false then
          let th := { th with owned := th.owned.dropLast }
          if (s.mutex m).owner = some t then
            some ((s.setMutex m { s.mutex m with
                owner := none
                boostPrio := noBoost }).setThread t
              { th with phase := .orphaning m })
          else some (s.setThread t th)
        else none
      | _, _ => none
  | .wakeAll t =>
    (s.thread t).bind fun th =>
      match th.phase with
      | .orphaning m =>
        some ((s.wakeAll m).setThread t { th with phase := .reaping })
      | _ => none
  | .reaped t =>
    (s.thread t).bind fun th =>
      if th.phase = .reaping ∧ th.owned = [] then
        some { s with table := s.table.set t none }
      else none

/-- One section of one call. -/
def step (first : State) (label : Label) (last : State) : Prop :=
  exec first label = some last

/-! ### What priority inheritance promises -/

/-- No call stands between two of its sections, but for threads that wait. -/
def Quiescent (s : State) : Prop :=
  ∀ t th, s.thread t = some th → th.phase = .idle ∨
    (∃ m, th.phase = .waiting m) ∨ (∃ m, th.phase = .retrying m) ∨ th.phase = .reaping

/-- Every owner is at least as urgent as every thread that waits on a mutex it
owns, and a thread that owns no mutex has its base priority. -/
structure Inherited (s : State) : Prop where
  urgent : ∀ m o w owner waiter, (s.mutex m).owner = some o → w ∈ (s.mutex m).waiters →
    s.thread o = some owner → s.thread w = some waiter → owner.priority ≤ waiter.priority
  calm : ∀ t th, s.thread t = some th → th.dead = false →
    (∀ m, (s.mutex m).owner ≠ some t) → th.priority = th.base

/-- A thread takes no more mutexes than are tracked. -/
def WithinLimit (s : State) : Label → Prop
  | .lock t m | .trylock t m =>
    ∀ th, s.thread t = some th → (s.mutex m).owner = none → th.owned.length < maxOwnedMutexes
  | _ => True

/-- The thread is in the middle of giving a mutex away: its waiters are still to
be woken. -/
def Phase.releases (m : Nat) : Phase → Prop
  | .releasing n => n = m
  | .applying n _ => n = m
  | .waking n => n = m
  | .orphaning n => n = m
  | _ => False

/-- Another thread is in the middle of giving the mutex away. -/
def Unsettled (s : State) (m but : Nat) : Prop :=
  ∃ t th, t ≠ but ∧ s.thread t = some th ∧ th.phase.releases m

/-- The waiter is no more urgent than `prio`, or the boost that it owes the
owner is still to come. -/
def Served (prio m o : Nat) (waiter : Thread) : Prop :=
  prio ≤ waiter.priority ∨ waiter.phase = .boosting m (some o) waiter.priority

/-- The threads in `queue` are served by a thread that owns the mutex. -/
def ServedAll (s : State) (m : Nat) (queue : List Nat) (o prio : Nat) : Prop :=
  ∀ w ∈ queue, ∀ waiter, s.thread w = some waiter → Served prio m o waiter

/-- The boost walk meets only owners of a mutex, along links that are still
true, and comes to its end within its depth. -/
def ChainOk (mutex : Nat → Mutex) (tid prio : Nat) : Nat → Nat → List (Option Thread) → Prop
  | 0, cursor, table =>
    ∀ th, threadAt table cursor = some th → th.priority ≤ prio
  | depth + 1, cursor, table =>
    ∀ th, threadAt table cursor = some th → th.priority ≤ prio ∨ (0 < cursor ∧ th.owned ≠ [] ∧
          (th.blocked = true → ∀ m, th.waitingOn = some m → ∃ next, th.waitingOwner = some next ∧
              (mutex m).owner = some next ∧ (next = cursor ∨ next = tid ∨
                ChainOk mutex tid prio depth next (table.set cursor (some (th.setPriority prio))))))

/-- The urgency of a waiter is written down: in the base priority, or in the
boost of a mutex that the owner keeps. -/
def Recorded (s : State) (th : Thread) (prio : Nat) : Prop :=
  th.base ≤ prio ∨ ∃ m ∈ th.owned, (s.mutex m).boostPrio ≤ prio

/-- What a section relies on for the priorities.  A mutex is taken over only
from waiters that are no more urgent; the priority that is recorded is still
the own one; the boost walk finds true links; the priority that is set is up to
date and covers what is recorded; and who stops giving a mutex away leaves no
waiter more urgent than its new owner. -/
def Inherits (s : State) : Label → Prop
  | .lock t m | .trylock t m =>
    ∀ th, s.thread t = some th → (s.mutex m).owner = none →
      Unsettled s m t ∨ ServedAll s m (s.mutex m).waiters t th.priority
  | .register t =>
    ∀ th m req, s.thread t = some th → th.phase = .registering m req → req = th.priority
  | .boost t =>
    ∀ th m tid req, s.thread t = some th →
      th.phase = .boosting m (some tid) req → ChainOk s.mutex tid req chainMaxDepth tid s.table
  | .apply t =>
    ∀ th m eff, s.thread t = some th →
      th.phase = .applying m eff → eff = effectivePriority s th ∧ ∀ n ∈ th.owned,
        Unsettled s n t ∨ ∀ w ∈ (s.mutex n).waiters, ∀ waiter, s.thread w = some waiter →
            Recorded s th waiter.priority ∨ waiter.phase = .boosting n (some t) waiter.priority
  | .wake t =>
    ∀ th m, s.thread t = some th →
      th.phase = .waking m → Unsettled s m t ∨ ∀ o owner, (s.mutex m).owner = some o →
        s.thread o = some owner → ServedAll s m (s.mutex m).waiters.tail o owner.priority
  | .die t =>
    ∀ th m, s.thread t = some th →
      th.phase.releases m → Unsettled s m t ∨ ∀ o owner, (s.mutex m).owner = some o →
        s.thread o = some owner → ServedAll s m (s.mutex m).waiters o owner.priority
  | _ => True

end MainDob.Kernel.Mutexes
