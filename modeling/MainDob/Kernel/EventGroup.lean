/-
Purpose: The event groups of `kernel/sync/event_group.c` as a transition system:
  the calls on one group, each with its own frame, whose sections under the
  group's lock, wakes and checks of a wait record interleave freely.
Trusted boundary: a section under the group's lock, a wake of one record and a
  check of `signaled` are one step each; the sleep timers and wake-ups that
  belong to nobody come with the step.  Groups share nothing, so the state is
  one slot of `s_groups`.
Main exports: Flags, Mode, patternMatch
-/
import MainDob.Lib.Lending
import MainDob.Lib.Runs

namespace MainDob.Kernel.EventGroup

open Lib

abbrev Flags := BitVec 32

/-- A call on the group, of any thread.  Every call has its own number. -/
abbrev CallId := Nat

/-- `pattern_match`, on the numbers `RT_ALL_SET`, `RT_ANY_SET`, `RT_ALL_CLEAR`
and `RT_ANY_CLEAR` of the mode. -/
def patternMatch (flags pattern : Flags) (mode : Nat) : Bool :=
  match mode with
  | 0 => flags &&& pattern == pattern
  | 1 => flags &&& pattern != 0
  | 2 => flags &&& pattern == 0
  | 3 => flags &&& pattern != pattern
  | _ => false

/-- `WAIT_OK`, `WAIT_TIMEOUT` and `WAIT_CANCELLED`. -/
inductive WaitResult where
  | ok
  | timeout
  | cancelled
deriving DecidableEq, Repr

/-- `event_waiter_t`.  The private wait queue `wq` holds the record's own
thread or nobody: `queued`.  Its `node` is its place in `Group.waiters`. -/
structure Waiter where
  pattern : Flags
  mode : Nat
  signaled : Bool
  result : WaitResult
  resultFlags : Flags
  queued : Bool
deriving DecidableEq, Repr

/-- `event_group_t`.  A wait record is named by its call. -/
structure Group where
  used : Bool
  poisoned : Bool
  ownerPid : Nat
  flags : Flags
  waiters : List CallId
deriving DecidableEq, Repr

/-- `EVENT_OP_SET`, `EVENT_OP_CLEAR` and `EVENT_OP_PULSE`. -/
inductive Mutation where
  | set
  | clear
  | pulse
deriving DecidableEq, Repr

/-- The point `event_group_wait` has reached, once its record is listed. -/
inductive WaitPoint where
  /-- At the top of the loop, before `wait_prepare`. -/
  | listed
  /-- Before the check of `signaled` that follows `wait_prepare`. -/
  | prepared
  /-- In `scheduler_yield`. -/
  | asleep
  /-- Before the check of `signaled` that follows `wait_finish`. -/
  | awake
  /-- Before the locked section of a timeout. -/
  | expiring
  /-- After that section, before the group's flags are read. -/
  | expired
deriving DecidableEq, Repr

/-- The point `wake_waiters` has reached, with its batch. -/
inductive WalkPoint where
  /-- The argument `g->flags` of a cancelling walk is still to be read. -/
  | reading
  /-- Before the locked section. -/
  | walking
  /-- After it: the records to wake, and whether the batch was full. -/
  | waking (batch : List CallId) (again : Bool)
  /-- Before the last section of `event_group_destroy`. -/
  | closing
deriving DecidableEq, Repr

/-- The arguments of `wake_waiters`; `destroys` says that the caller is
`event_group_destroy`. -/
structure Walk where
  snapshot : Flags
  cancelAll : Bool
  destroys : Bool
deriving DecidableEq, Repr

/-- The stack frame of a call. -/
inductive Frame where
  /-- The call has not been made. -/
  | idle
  /-- In `event_group_wait`, with the thread's `wait_result`. -/
  | waiting (record : Waiter) (timeoutMs : Nat) (waitResult : WaitResult)
      (point : WaitPoint)
  /-- `event_group_wait` returned, with what it wrote to `out_flags`. -/
  | waited (result : WaitResult) (outFlags : Option Flags)
  /-- In a call that walks the waiters. -/
  | walk (walk : Walk) (point : WalkPoint)
  /-- A call other than a wait returned. -/
  | returned (code : Int)
deriving DecidableEq, Repr

/-- What the locked sections did, in their order. -/
inductive Event where
  /-- A wait found the group usable and looked at its flags. -/
  | registered (call : CallId) (pattern : Flags) (mode : Nat)
  /-- A call showed the flags `shown` and left the group with `left`. -/
  | mutated (call : CallId) (shown left : Flags)
  /-- The wait was decided by a walk of `by`, or by itself at once. -/
  | released (call waker : CallId) (result : WaitResult) (flags : Flags)
  /-- The wait took its record back at its timeout. -/
  | expired (call : CallId)
deriving DecidableEq, Repr

/-- The group and the calls on it.  `log` is not in the source: it keeps the
order of the locked sections. -/
structure State where
  group : Group
  frames : CallId → Frame
  log : List Event

/-- A group just created, with no call on it. -/
def created (owner : Nat) : State where
  group := ⟨true, false, owner, 0, []⟩
  frames := fun _ => .idle
  log := []

/-- The frame of one call is replaced. -/
def State.setFrame (s : State) (call : CallId) (frame : Frame) : State :=
  { s with frames := Function.update s.frames call frame }

/-- A section goes on record. -/
def State.record (s : State) (event : Event) : State :=
  { s with log := s.log ++ [event] }

/-- Does a walk want this record? -/
def Walk.wants (walk : Walk) : Frame → Bool
  | .waiting record _ _ _ =>
    walk.cancelAll || patternMatch walk.snapshot record.pattern record.mode
  | _ => false

/-- What `wake_waiters` writes into a record it takes. -/
def Walk.decision (walk : Walk) : WaitResult :=
  if walk.cancelAll then .cancelled else .ok

/-- The three writes of `wake_waiters` to a record. -/
def Walk.mark (walk : Walk) : Frame → Frame
  | .waiting record timeoutMs waitResult point =>
    .waiting { record with
      result := walk.decision
      resultFlags := walk.snapshot
      signaled := true } timeoutMs waitResult point
  | frame => frame

/-- `ARRAY_SIZE(batch)`. -/
def batchSize : Nat := 16

/-- The locked section of `wake_waiters`. -/
def takeBatch (s : State) (call : CallId) (walk : Walk) : State :=
  let (batch, left) :=
    collect (fun c => walk.wants (s.frames c)) batchSize s.group.waiters
  { group := { s.group with waiters := left }
    frames := Function.update
      (fun c => if c ∈ batch then walk.mark (s.frames c) else s.frames c)
      call (.walk walk (.waking batch (batchSize ≤ batch.length)))
    log := s.log ++
      batch.map fun c => .released c call walk.decision walk.snapshot }

/-- `wait_queue_wake_all` on the queue of a record: its thread, when it is
there, leaves it with `WAIT_OK`. -/
def Frame.wake : Frame → Frame
  | .waiting record timeoutMs waitResult point =>
    .waiting { record with queued := false } timeoutMs
      (if record.queued then .ok else waitResult) point
  | frame => frame

/-- One step of a call in `wake_waiters`, or after it. -/
def walkStep (s : State) (call : CallId) (walk : Walk) : WalkPoint → State
  | .reading =>
    s.setFrame call (.walk { walk with snapshot := s.group.flags } .walking)
  | .walking => takeBatch s call walk
  | .waking (c :: batch) again =>
    (s.setFrame c (s.frames c).wake).setFrame call (.walk walk (.waking batch again))
  | .waking [] true => s.setFrame call (.walk walk .walking)
  | .waking [] false =>
    if walk.destroys then s.setFrame call (.walk walk .closing)
    else s.setFrame call (.returned 0)
  | .closing =>
    ({ s with
      group := { s.group with
        used := false, flags := 0, poisoned := false, ownerPid := 0 }
      }.setFrame call (.returned 0)).record (.mutated call 0 0)

/-- `event_group_create`, on this slot. -/
def eventGroupCreate (s : State) (call : CallId) (owner : Nat) : State :=
  if s.group.used then s.setFrame call (.returned (-1))
  else
    ({ s with
      group := { s.group with
        used := true, flags := 0, poisoned := false, ownerPid := owner }
      }.setFrame call (.returned 0)).record (.mutated call 0 0)

/-- The locked section of `mutate_and_wake`: the flags the waiters see, and
the flags it leaves. -/
def Mutation.apply (op : Mutation) (flags bits : Flags) : Flags × Flags :=
  match op with
  | .set => (flags ||| bits, flags ||| bits)
  | .clear => (flags &&& ~~~bits, flags &&& ~~~bits)
  | .pulse => (flags ||| bits, (flags ||| bits) &&& ~~~bits)

/-- `mutate_and_wake` up to its walk. -/
def mutateAndWake (s : State) (call : CallId) (op : Mutation) (bits : Flags) :
    State :=
  if s.group.used = false ∨ s.group.poisoned then
    s.setFrame call (.returned (-1))
  else
    let (snapshot, flags) := op.apply s.group.flags bits
    ({ s with group := { s.group with flags := flags }
      }.setFrame call (.walk ⟨snapshot, false, false⟩ .walking)).record
        (.mutated call snapshot flags)

/-- The first section of `event_group_poison` and of `event_group_destroy`;
`code` is what the call returns on an unused group. -/
def poisonWith (s : State) (call : CallId) (destroys : Bool) (code : Int) :
    State :=
  if s.group.used = false then s.setFrame call (.returned code)
  else
    { s with group := { s.group with poisoned := true } }.setFrame call
      (.walk ⟨0, true, destroys⟩ .reading)

/-- `event_group_poison` up to its walk. -/
def eventGroupPoison (s : State) (call : CallId) : State :=
  poisonWith s call false (-1)

/-- `event_group_destroy` up to its walk.  It returns nothing. -/
def eventGroupDestroy (s : State) (call : CallId) : State :=
  poisonWith s call true 0

/-- `event_group_reset`. -/
def eventGroupReset (s : State) (call : CallId) : State :=
  if s.group.used = false then s.setFrame call (.returned (-1))
  else
    ({ s with group := { s.group with flags := 0, poisoned := false }
      }.setFrame call (.returned 0)).record (.mutated call 0 0)

/-- The first section of `event_group_wait`. -/
def eventGroupWait (s : State) (call : CallId) (pattern : Flags) (mode : Nat)
    (timeoutMs : Nat) : State :=
  if s.group.used = false then s.setFrame call (.waited .timeout none)
  else if s.group.poisoned then
    s.setFrame call (.waited .cancelled (some s.group.flags))
  else if patternMatch s.group.flags pattern mode then
    ((s.setFrame call (.waited .ok (some s.group.flags))).record
      (.registered call pattern mode)).record (.released call call .ok s.group.flags)
  else
    ({ s with group := { s.group with waiters := s.group.waiters ++ [call] }
      }.setFrame call (.waiting ⟨pattern, mode, false, .timeout, 0, false⟩ timeoutMs .ok
          .listed)).record (.registered call pattern mode)

/-- The locked section of a timeout. -/
def expire (s : State) (call : CallId) (record : Waiter) (timeoutMs : Nat)
    (waitResult : WaitResult) : State :=
  if record.signaled then
    s.setFrame call (.waited record.result (some record.resultFlags))
  else
    ({ s with group := { s.group with waiters := s.group.waiters.erase call }
      }.setFrame call (.waiting record timeoutMs waitResult .expired)).record (.expired call)

/-- One step of `event_group_wait` after its first section.  `armed` says
whether the timer heap took the sleep timer.  A thread that is still in its
wait queue sleeps on. -/
def waitStep (s : State) (call : CallId) (armed : Bool) (record : Waiter)
    (timeoutMs : Nat) (waitResult : WaitResult) : WaitPoint → Option State
  | .listed =>
    -- `wait_prepare`: without a timer the thread is not left to sleep
    if 0 < timeoutMs ∧ armed = false then
      some (s.setFrame call (.waiting { record with queued := false } timeoutMs .timeout
          .prepared))
    else
      some (s.setFrame call (.waiting { record with queued := true } timeoutMs .ok .prepared))
  | .prepared =>
    if record.signaled then
      some (s.setFrame call (.waited record.result (some record.resultFlags)))
    else some (s.setFrame call (.waiting record timeoutMs waitResult .asleep))
  | .asleep =>
    if record.queued then none
    else some (s.setFrame call (.waiting record timeoutMs waitResult .awake))
  | .awake =>
    if record.signaled then
      some (s.setFrame call (.waited record.result (some record.resultFlags)))
    else if waitResult = .timeout then
      some (s.setFrame call (.waiting record timeoutMs waitResult .expiring))
    else some (s.setFrame call (.waiting record timeoutMs waitResult .listed))
  | .expiring => some (expire s call record timeoutMs waitResult)
  | .expired => some (s.setFrame call (.waited .timeout (some s.group.flags)))

/-- `scheduler_sleep_timer_fire` for the thread of a wait: a thread in its wait
queue leaves it with `WAIT_TIMEOUT`. -/
def timerFire (s : State) (call : CallId) : Option State :=
  match s.frames call with
  | .waiting record timeoutMs _ point =>
    if 0 < timeoutMs ∧ record.queued ∧ (point = .prepared ∨ point = .asleep) then
      some (s.setFrame call (.waiting { record with queued := false } timeoutMs .timeout point))
    else none
  | _ => none

/-- A wake-up that is not for this wait: the thread runs on and stays in its
wait queue. -/
def strayWake (s : State) (call : CallId) : Option State :=
  match s.frames call with
  | .waiting record timeoutMs waitResult .asleep =>
    some (s.setFrame call (.waiting record timeoutMs waitResult .awake))
  | _ => none

/-- The steps: the first section of each call, one more step of a call, and
what happens to a sleeping thread. -/
inductive Label where
  | create (call : CallId) (owner : Nat)
  | destroy (call : CallId)
  | mutate (call : CallId) (op : Mutation) (bits : Flags)
  | poison (call : CallId)
  | reset (call : CallId)
  | wait (call : CallId) (pattern : Flags) (mode : Nat) (timeoutMs : Nat)
  | go (call : CallId) (armed : Bool)
  | fire (call : CallId)
  | stray (call : CallId)
deriving DecidableEq, Repr

/-- One more step of a call that has begun. -/
def goOn (s : State) (call : CallId) (armed : Bool) : Option State :=
  match s.frames call with
  | .waiting record timeoutMs waitResult point =>
    waitStep s call armed record timeoutMs waitResult point
  | .walk walk point => some (walkStep s call walk point)
  | _ => none

/-- The first section of a call is taken by a call that has not been made. -/
def begin (s : State) (call : CallId) (after : State) : Option State :=
  if s.frames call = .idle then some after else none

/-- One step. -/
def exec (s : State) : Label → Option State
  | .create call owner => begin s call (eventGroupCreate s call owner)
  | .destroy call => begin s call (eventGroupDestroy s call)
  | .mutate call op bits => begin s call (mutateAndWake s call op bits)
  | .poison call => begin s call (eventGroupPoison s call)
  | .reset call => begin s call (eventGroupReset s call)
  | .wait call pattern mode timeoutMs =>
    begin s call (eventGroupWait s call pattern mode timeoutMs)
  | .go call armed => goOn s call armed
  | .fire call => timerFire s call
  | .stray call => strayWake s call

/-- The transition relation. -/
def step (s : State) (label : Label) (s' : State) : Prop :=
  exec s label = some s'

/-- Is the call inside `event_group_wait`, so that its record is on its
stack? -/
def Frame.inWait : Frame → Prop
  | .waiting .. => True
  | _ => False

/-- The records a call has taken and not woken yet. -/
def Frame.batch : Frame → List CallId
  | .walk _ (.waking batch _) => batch
  | _ => []

/-- The wait records as loans. -/
def lent (s : State) : Lending CallId CallId :=
  .ofFrames Frame.inWait Frame.batch s.group.waiters s.frames

end MainDob.Kernel.EventGroup
