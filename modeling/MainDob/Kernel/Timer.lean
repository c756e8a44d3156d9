/-
Purpose: The timer heap of kernel/time/timer.c: arming and cancelling, growing and trimming of the
  storage in two locked sections, and the drain, which drops the lock around every callback.
Trusted boundary: a locked section is one step; the comparison of generations
  and the call of the callback are outside the lock and one step each; clock
  readings and memory for the storage are choices of the environment; timers
  start out as timer_init leaves them
Main exports: Timer, Phase, Drain
-/
import MainDob.Lib.IndexedHeap
import MainDob.Lib.Runs

namespace MainDob.Kernel.Timers

open Function (update)
open Lib

/-- `TIMER_HEAP_BOOT_CAP`. -/
def bootCap : Nat := 1024

/-- `TIMER_HEAP_MAX_CAP`. -/
def maxCap : Nat := 65536

/-- The number of values of a `uint64_t`. -/
def clockWord : Nat := 18446744073709551616

/-- The number of values of a `uint32_t`. -/
def genWord : Nat := 4294967296

/-- A `timer_t`; its `heap_idx` is its position in the heap. -/
structure Timer where
  deadline : Nat
  period : Nat
  gen : Nat
  firePending : Bool
deriving Repr, DecidableEq

/-- Where a drain stands while it has dropped the lock. -/
inductive Phase where
  /-- `t` is off the heap; `fire_gen` was its generation. -/
  | popped (t fireGen : Nat)
  /-- The generation of `t` matched: its callback is called next. -/
  | calling (t : Nat)
  /-- The callback of `t` was called or skipped. -/
  | returning (t : Nat)
  /-- The lock is taken again next. -/
  | ready
deriving Repr, DecidableEq

/-- A `timer_on_tick` that found a due timer. -/
structure Drain where
  now : Nat
  phase : Phase
deriving Repr, DecidableEq

/-- What happened to timers. -/
inductive Event where
  | armed (t : Nat) (once : Bool)
  | refused (t : Nat)
  | cancelled (t : Nat)
  | began (cpu now : Nat)
  /-- Taken from the heap by a drain, with the deadlines before and after. -/
  | drained (cpu t : Nat) (once : Bool) (now before after : Nat)
  /-- The callback was called. -/
  | fired (cpu t : Nat)
deriving Repr, DecidableEq

/-- The timers, the heap with its capacity, the capacities that growers and
trimmers have read, and the drains of the CPUs.  `armed` and `log` are kept for
the statements: a timer is armed from an arming that succeeded until it is
cancelled, armed again, or drained as a one-shot timer. -/
structure State where
  timers : Nat → Timer
  heap : IndexedHeap Nat
  cap : Nat
  growing : List Nat
  trimming : List Nat
  drains : Nat → Option Drain
  armed : Nat → Bool
  log : List Event

/-- The key of the heap. -/
def State.deadline (s : State) (t : Nat) : Nat := (s.timers t).deadline

/-- Overwrite a timer. -/
def State.setTimer (s : State) (t : Nat) (timer : Timer) : State :=
  { s with timers := update s.timers t timer }

/-- Set a ghost flag. -/
def State.setArmed (s : State) (t : Nat) (value : Bool) : State :=
  { s with armed := update s.armed t value }

/-- Record an event. -/
def State.note (s : State) (event : Event) : State :=
  { s with log := event :: s.log }

/-- Set what a CPU drains. -/
def State.setDrain (s : State) (cpu : Nat) (drain : Option Drain) : State :=
  { s with drains := update s.drains cpu drain }

/-- `heap_insert`: whether there was room. -/
def heapInsert (s : State) (t : Nat) : State × Bool :=
  if s.cap ≤ s.heap.count then (s, false)
  else ({ s with heap := s.heap.push s.deadline t }, true)

/-- `heap_remove_at`. -/
def heapRemoveAt (s : State) (i : Nat) : State :=
  { s with heap := s.heap.removeAt s.deadline i }

/-- `t->heap_idx = -1`. -/
def clearIndex (s : State) (t : Nat) : State :=
  { s with heap := { s.heap with pos := update s.heap.pos t none } }

/-- `detach_if_armed`. -/
def detachIfArmed (s : State) (t : Nat) : State :=
  match s.heap.pos t with
  | none => clearIndex s t
  | some i =>
    if i < s.heap.count ∧ s.heap.arr i = t then clearIndex (heapRemoveAt s i) t
    else clearIndex s t

/-- `arm_locked`. -/
def armLocked (s : State) (t deadline period : Nat) : State × Bool :=
  let s := detachIfArmed s t
  let timer := s.timers t
  let s := s.setTimer t { timer with
      gen := (timer.gen + 1) % genWord
      deadline := deadline
      period := period }
  heapInsert s t

/-- The locked section of `arm_with_growth`. -/
def armSection (s : State) (t deadline period : Nat) : State :=
  let (s, ok) := armLocked s t deadline period
  if ok then (s.setArmed t true).note (.armed t (period == 0))
  else (s.setArmed t false).note (.refused t)

/-- `timer_cancel`. -/
def timerCancel (s : State) (t : Nat) : State :=
  let s := detachIfArmed s t
  let timer := s.timers t
  let s := s.setTimer t { timer with
      gen := (timer.gen + 1) % genWord
      deadline := 0
      period := 0 }
  (s.setArmed t false).note (.cancelled t)

/-- The first section of `heap_try_grow`, where there is memory for the new
storage. -/
def growRead (s : State) : State :=
  if maxCap < s.cap * 2 then s else { s with growing := s.cap :: s.growing }

/-- The storage after `memcpy` into an array that held `junk`. -/
def copyStorage (h : IndexedHeap Nat) (junk : Nat → Nat) : IndexedHeap Nat :=
  { h with arr := fun i => if i < h.count then h.arr i else junk i }

/-- The second section of `heap_try_grow`. -/
def growAdopt (s : State) (have_ : Nat) (junk : Nat → Nat) : State :=
  let s := { s with growing := s.growing.erase have_ }
  if s.cap = have_ then
    { s with heap := copyStorage s.heap junk, cap := have_ * 2 }
  else s

/-- The first section of `timer_heap_trim`, where there is memory for the new
storage. -/
def trimRead (s : State) : State :=
  if s.cap ≤ bootCap ∨ s.cap / 4 < s.heap.count then s
  else { s with trimming := s.cap :: s.trimming }

/-- The capacity a trim goes down to. -/
def trimWant (cap : Nat) : Nat :=
  if cap / 2 < bootCap then bootCap else cap / 2

/-- The second section of `timer_heap_trim`. -/
def trimAdopt (s : State) (cap : Nat) (junk : Nat → Nat) : State :=
  let s := { s with trimming := s.trimming.erase cap }
  if s.cap = cap ∧ s.heap.count ≤ trimWant cap / 2 then
    { s with heap := copyStorage s.heap junk, cap := trimWant cap }
  else s

/-- The next deadline of a periodic timer: one period on, or one period from
now when that is past already. -/
def nextDeadline (now deadline period : Nat) : Nat :=
  let next := (deadline + period) % clockWord
  if next ≤ now then (now + period) % clockWord else next

/-- The head of the heap is due. -/
def headDue (s : State) (now : Nat) : Bool :=
  decide (0 < s.heap.count) && decide (s.deadline (s.heap.arr 0) ≤ now)

/-- The part of the drain loop that runs under the lock, for a due head. -/
def popDue (s : State) (cpu now : Nat) : State :=
  let t := s.heap.arr 0
  let timer := s.timers t
  let s := heapRemoveAt s 0
  let s :=
    if timer.period ≠ 0 then
      let after := nextDeadline now timer.deadline timer.period
      let s := s.setTimer t { timer with deadline := after, firePending := true }
      let (s, ok) := heapInsert s t
      (s.setArmed t ok).note (.drained cpu t false now timer.deadline after)
    else
      let s := s.setTimer t { timer with deadline := 0, firePending := true }
      (s.setArmed t false).note (.drained cpu t true now timer.deadline 0)
  s.setDrain cpu (some ⟨now, .popped t timer.gen⟩)

/-- From taking the lock to dropping it: take the head if it is due, else the
drain is over. -/
def drainNext (s : State) (cpu now : Nat) : State :=
  if headDue s now then popDue s cpu now else s.setDrain cpu none

/-- The sections. -/
inductive Label where
  | armAt (t deadline : Nat)
  | armPeriodic (t now period : Nat)
  | cancel (t : Nat)
  | growRead
  | growAdopt (have_ : Nat) (junk : Nat → Nat)
  | trimRead
  | trimAdopt (cap : Nat) (junk : Nat → Nat)
  | tick (cpu now : Nat)
  | check (cpu : Nat)
  | call (cpu : Nat)
  | ret (cpu : Nat)
  | pop (cpu : Nat)

/-- The state a section leaves, where it can be run. -/
def exec (s : State) : Label → Option State
  | .armAt t deadline => some (armSection s t deadline 0)
  | .armPeriodic t now period =>
    some (armSection s t ((now + period) % clockWord) period)
  | .cancel t => some (timerCancel s t)
  | .growRead => some (growRead s)
  | .growAdopt have_ junk =>
    if have_ ∈ s.growing then some (growAdopt s have_ junk) else none
  | .trimRead => some (trimRead s)
  | .trimAdopt cap junk =>
    if cap ∈ s.trimming then some (trimAdopt s cap junk) else none
  | .tick cpu now =>
    match s.drains cpu with
    | some _ => none
    | none =>
      if headDue s now then some (popDue (s.note (.began cpu now)) cpu now)
      else some s
  | .check cpu =>
    match s.drains cpu with
    | some ⟨now, .popped t fireGen⟩ =>
      if (s.timers t).gen = fireGen then
        some (s.setDrain cpu (some ⟨now, .calling t⟩))
      else some (s.setDrain cpu (some ⟨now, .returning t⟩))
    | _ => none
  | .call cpu =>
    match s.drains cpu with
    | some ⟨now, .calling t⟩ =>
      some ((s.note (.fired cpu t)).setDrain cpu (some ⟨now, .returning t⟩))
    | _ => none
  | .ret cpu =>
    match s.drains cpu with
    | some ⟨now, .returning t⟩ =>
      some ((s.setTimer t { s.timers t with firePending := false }).setDrain
        cpu (some ⟨now, .ready⟩))
    | _ => none
  | .pop cpu =>
    match s.drains cpu with
    | some ⟨now, .ready⟩ => some (drainNext s cpu now)
    | _ => none

/-- A section takes a state to the next one. -/
def step (s : State) (label : Label) (s' : State) : Prop :=
  exec s label = some s'

/-- Every timer as `timer_init` leaves it, and an empty heap. -/
def initial : State where
  timers _ := ⟨0, 0, 0, false⟩
  heap := ⟨fun _ => 0, fun _ => none, 0⟩
  cap := bootCap
  growing := []
  trimming := []
  drains _ := none
  armed _ := false
  log := []

end MainDob.Kernel.Timers
