/-
Purpose: The reader-writer lock of `kernel/sync/rwlock.c` as a transition
  system: any number of threads that lock and unlock it, with the two wait
  queues and the wakes that follow an unlock after its guard was dropped.
Trusted boundary: a section under the guard and a wake are one step each; the
  counters do not wrap, a kernel has far fewer threads; a thread in a wait queue
  is woken only through that queue.
Main exports: Phase, State, initial
-/
import MainDob.Lib.Runs
import Mathlib.Logic.Function.Basic

namespace MainDob.Kernel.Rwlock

abbrev Tid := Nat

/-- Where a thread is in the code of the lock. -/
inductive Phase where
  /-- In none of the four calls. -/
  | idle
  /-- Asleep in `read_waiters`. -/
  | sleepRead
  /-- Woken there, before it tries again. -/
  | awakeRead
  /-- Asleep in `write_waiters`. -/
  | sleepWrite
  /-- Woken there, before it takes itself off `writers_waiting`. -/
  | awakeWrite
  /-- After that, before it tries again. -/
  | retryWrite
  /-- In an unlock, before `wait_queue_wake_one(&rw->write_waiters)`. -/
  | wakeWriter
  /-- In an unlock, before `wait_queue_wake_all(&rw->read_waiters)`. -/
  | wakeReaders
deriving DecidableEq, Repr

/-- `rwlock_t` and the threads.  `insideRead` and `insideWrite` are not in the
source: they list who holds the lock, once for each time it was taken. -/
structure State where
  readers : Int
  writersWaiting : Int
  readWaiters : List Tid
  writeWaiters : List Tid
  phase : Tid → Phase
  insideRead : List Tid
  insideWrite : List Tid

/-- `rwlock_init`. -/
def initial : State := ⟨0, 0, [], [], fun _ => .idle, [], []⟩

def State.setPhase (s : State) (t : Tid) (phase : Phase) : State :=
  { s with phase := Function.update s.phase t phase }

/-- A round of `rwlock_read_lock`. -/
def readLock (s : State) (t : Tid) : State :=
  if 0 ≤ s.readers ∧ s.writersWaiting = 0 then
    { s with
      readers := s.readers + 1
      insideRead := t :: s.insideRead }.setPhase t .idle
  else
    { s with readWaiters := s.readWaiters ++ [t] }.setPhase t .sleepRead

/-- The section of `rwlock_read_unlock`. -/
def readUnlock (s : State) (t : Tid) : State :=
  let readers := s.readers - 1
  { s with
    readers := readers
    insideRead := s.insideRead.erase t }.setPhase t
      (if readers = 0 ∧ s.writersWaiting ≠ 0 then .wakeWriter else .idle)

/-- The first section of a round of `rwlock_write_lock`. -/
def writeLock (s : State) (t : Tid) : State :=
  if s.readers = 0 then
    { s with
      readers := -1
      insideWrite := t :: s.insideWrite }.setPhase t .idle
  else
    { s with
      writersWaiting := s.writersWaiting + 1
      writeWaiters := s.writeWaiters ++ [t] }.setPhase t .sleepWrite

/-- The section of `rwlock_write_unlock`. -/
def writeUnlock (s : State) (t : Tid) : State :=
  { s with
    readers := 0
    insideWrite := s.insideWrite.erase t }.setPhase t
      (if s.writersWaiting ≠ 0 then .wakeWriter else .wakeReaders)

/-- `wait_queue_wake_one(&rw->write_waiters)`, and the unlock returns. -/
def wakeOne (s : State) (t : Tid) : State :=
  match s.writeWaiters with
  | [] => s.setPhase t .idle
  | first :: rest =>
    ({ s with writeWaiters := rest }.setPhase first .awakeWrite).setPhase t
      .idle

/-- `wait_queue_wake_all(&rw->read_waiters)`, and the unlock returns. -/
def wakeAll (s : State) (t : Tid) : State :=
  { s with
    readWaiters := []
    phase := Function.update
      (fun other => if other ∈ s.readWaiters then .awakeRead
        else s.phase other) t .idle }

/-- The calls, and one more step of a thread inside one. -/
inductive Label where
  | readLock (t : Tid)
  | readUnlock (t : Tid)
  | writeLock (t : Tid)
  | writeUnlock (t : Tid)
  | go (t : Tid)
deriving DecidableEq, Repr

/-- One more step of a thread; a thread asleep makes none. -/
def goOn (s : State) (t : Tid) : Option State :=
  match s.phase t with
  | .idle | .sleepRead | .sleepWrite => none
  | .awakeRead => some (readLock s t)
  | .awakeWrite =>
    some ({ s with writersWaiting := s.writersWaiting - 1 }.setPhase t
      .retryWrite)
  | .retryWrite => some (writeLock s t)
  | .wakeWriter => some (wakeOne s t)
  | .wakeReaders => some (wakeAll s t)

/-- One step.  A thread unlocks only what it holds. -/
def exec (s : State) : Label → Option State
  | .readLock t =>
    if s.phase t = .idle then some (readLock s t) else none
  | .readUnlock t =>
    if s.phase t = .idle ∧ t ∈ s.insideRead then some (readUnlock s t)
    else none
  | .writeLock t =>
    if s.phase t = .idle then some (writeLock s t) else none
  | .writeUnlock t =>
    if s.phase t = .idle ∧ t ∈ s.insideWrite then some (writeUnlock s t)
    else none
  | .go t => goOn s t

/-- The transition relation. -/
def step (s : State) (label : Label) (s' : State) : Prop :=
  exec s label = some s'

end MainDob.Kernel.Rwlock
