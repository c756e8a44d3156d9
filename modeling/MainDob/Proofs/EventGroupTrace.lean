/-
Purpose: How the log of an event group and the frames of its calls agree, in
  every run: what the log says of a call is what its frame shows.
Main exports: current, unwalked, Shift
-/
import MainDob.Lib.Logs
import MainDob.Proofs.EventGroupSteps

namespace MainDob.Proofs.EventGroupTrace

open Function (update)
open Kernel.EventGroup EventGroupSteps
open List Function

/-- The flags an event leaves the group with, where it found `flags`. -/
def flagsAfter (flags : Flags) : Event → Flags
  | .mutated _ _ left => left
  | _ => flags

/-- The flags of the group, by its log. -/
def current (log : List Event) : Flags :=
  log.foldl flagsAfter 0

@[simp] theorem current_concat (log : List Event) (event : Event) :
    current (log ++ [event]) = flagsAfter (current log) event := by
  simp [current]

theorem current_released (log : List Event) (calls : List CallId)
    (waker : CallId) (result : WaitResult) (flags : Flags) :
    current (log ++ calls.map fun c => .released c waker result flags) = current log := by
  induction calls generalizing log with
  | nil => simp
  | cons call _ ih =>
    have rest := ih (log ++ [.released call waker result flags])
    simpa [flagsAfter] using rest

/-- The flags with which a set, clear or pulse still has to walk the waiters. -/
def unwalked : Frame → Option Flags
  | .walk walk .walking => if walk.cancelAll then none else some walk.snapshot
  | .walk walk (.waking _ true) =>
    if walk.cancelAll then none else some walk.snapshot
  | _ => none

/-- A frame moves on without a section of the log. -/
inductive Shift : Frame → Frame → Prop where
  | same (frame : Frame) : Shift frame frame
  | rest (record : Waiter) (timeoutMs : Nat) (verdict verdict' : WaitResult)
      (point point' : WaitPoint) (queued : Bool)
      (ends : point' = .expired ↔ point = .expired) :
      Shift (.waiting record timeoutMs verdict point)
        (.waiting { record with queued := queued } timeoutMs verdict' point')
  | answer (record : Waiter) (timeoutMs : Nat) (verdict : WaitResult)
      (point : WaitPoint) (before : point ≠ .expired)
      (decided : record.signaled = true) :
      Shift (.waiting record timeoutMs verdict point)
        (.waited record.result (some record.resultFlags))
  | giveUp (record : Waiter) (timeoutMs : Nat) (verdict : WaitResult)
      (flags : Option Flags) (undecided : record.signaled = false) :
      Shift (.waiting record timeoutMs verdict .expired) (.waited .timeout flags)
  | refuse (frame : Frame)
      (ends : (∃ code, frame = .returned code) ∨
        ∃ result flags, frame = .waited result flags ∧ result ≠ .ok) :
      Shift .idle frame
  | cancel (destroys : Bool) : Shift .idle (.walk ⟨0, true, destroys⟩ .reading)
  | read (walk : Walk) (flags : Flags) (cancels : walk.cancelAll = true) :
      Shift (.walk walk .reading) (.walk { walk with snapshot := flags } .walking)
  | onward (walk : Walk) (point point' : WalkPoint)
      (ahead : unwalked (.walk walk point') = unwalked (.walk walk point))
      (later : point' ≠ .reading) :
      Shift (.walk walk point) (.walk walk point')
  | done (walk : Walk) (point : WalkPoint)
      (ahead : unwalked (.walk walk point) = none) :
      Shift (.walk walk point) (.returned 0)

variable {frame : Frame}

theorem Shift.unwalked {frame' : Frame} (shift : Shift frame frame') :
    unwalked frame' = unwalked frame := by
  cases shift with
  | same | rest | answer | giveUp | cancel => rfl
  | refuse _ ends =>
    rcases ends with ⟨code, rfl⟩ | ⟨result, flags, rfl, -⟩ <;> rfl
  | read _ _ cancels => simp [EventGroupTrace.unwalked, cancels]
  | onward _ _ _ ahead => exact ahead
  | done _ _ ahead => exact ahead.symm

variable {timeoutMs : Nat} {verdict : WaitResult} {point : WaitPoint}

theorem Shift.record {record : Waiter}
    (shift : Shift frame (.waiting record timeoutMs verdict point)) :
    ∃ record' timeoutMs' verdict' point', frame = .waiting record' timeoutMs' verdict' point' ∧
      record = { record' with queued := record.queued } ∧
      (point = .expired ↔ point' = .expired) := by
  cases shift with
  | same => exact ⟨record, _, _, _, rfl, rfl, Iff.rfl⟩
  | rest record' _ _ _ _ _ _ ends => exact ⟨record', _, _, _, rfl, rfl, ends⟩
  | refuse _ ends =>
    rcases ends with ⟨code, isReturn⟩ | ⟨result, flags, isWaited, -⟩
    · cases isReturn
    · cases isWaited

theorem Shift.answered {flags : Option Flags} (shift : Shift frame (.waited .ok flags)) :
    frame = .waited .ok flags ∨
    ∃ record timeoutMs verdict point, frame = .waiting record timeoutMs verdict point ∧
        record.signaled = true ∧ record.result = .ok ∧ flags = some record.resultFlags := by
  generalize isOk : Frame.waited .ok flags = after at shift
  cases shift with
  | same => exact .inl rfl
  | answer record timeoutMs verdict point _ decided =>
    injection isOk with result value
    exact .inr ⟨record, timeoutMs, verdict, point, rfl, decided, result.symm, value⟩
  | refuse _ ends =>
    rcases ends with ⟨code, rfl⟩ | ⟨result, value, rfl, bad⟩
    · cases isOk
    · injection isOk with result
      exact (bad result.symm).elim
  | giveUp =>
    injection isOk with result
    cases result
  | rest | cancel | read | onward | done => cases isOk

variable {walk : Walk}

theorem Shift.reading (shift : Shift frame (.walk walk .reading)) :
    frame = .walk walk .reading ∨ walk.cancelAll = true := by
  generalize isWalk : Frame.walk walk .reading = after at shift
  cases shift with
  | same => exact .inl rfl
  | cancel => injection isWalk with same; exact .inr (same ▸ rfl)
  | refuse _ ends =>
    rcases ends with ⟨code, rfl⟩ | ⟨result, value, rfl, bad⟩ <;> cases isWalk
  | read => injection isWalk with _ point; cases point
  | onward _ _ _ _ later =>
    injection isWalk with _ same
    exact (later same.symm).elim
  | rest | answer | giveUp | done => cases isWalk

/-- A step that adds nothing to the log. -/
structure Quiet (s s' : State) : Prop where
  log : s'.log = s.log
  waiters : s'.group.waiters = s.group.waiters
  flags : s'.group.flags = s.group.flags
  frames : ∀ c, Shift (s.frames c) (s'.frames c)

variable {s : State} {call : CallId}

theorem Quiet.one {frame' : Frame} {group : Group} (waiters : group.waiters = s.group.waiters)
    (flags : group.flags = s.group.flags) (here : s.frames call = frame)
    (shift : Shift frame frame') : Quiet s ⟨group, update s.frames call frame', s.log⟩ where
  log := rfl
  waiters := waiters
  flags := flags
  frames := by
    intro c
    show Shift (s.frames c) (update s.frames call frame' c)
    by_cases same : c = call
    · rw [same, update_self, here]
      exact shift
    · rw [update_of_ne same]
      exact .same _

theorem Shift.wake (frame : Frame) : Shift frame frame.wake := by
  cases frame with
  | waiting record timeoutMs verdict point =>
    exact .rest record timeoutMs verdict _ point point false Iff.rfl
  | idle | waited | walk | returned => exact .same _

/-- What the log says of a call shows in its frame: a registered wait has its
pattern or is over, a call that changed the flags walks without cancelling or is
over, and a released wait has the result it was given. -/
def Shows : Event → Frame → Prop
  | .registered _ pattern mode, .waiting record _ _ _ =>
    record.pattern = pattern ∧ record.mode = mode
  | .registered .., .waited .. => True
  | .mutated .., .walk walk _ => walk.cancelAll = false
  | .mutated .., .returned _ => True
  | .released _ _ result flags, .waiting record _ _ _ =>
    record.signaled = true ∧ record.result = result ∧ record.resultFlags = flags
  | .released _ _ result flags, .waited result' flags' =>
    result' = result ∧ flags' = some flags
  | .expired _, .waiting _ _ _ point => point = .expired
  | .expired _, .waited result _ => result = .timeout
  | _, _ => False

/-- The call an event is about. -/
def subject : Event → CallId
  | .registered call _ _ => call
  | .mutated call _ _ => call
  | .released call _ _ _ => call
  | .expired call => call

variable {event : Event}

theorem Shows.began : ¬ Shows event .idle := by
  cases event <;> exact id

theorem Shows.shift {frame' : Frame} (shown : Shows event frame) (shift : Shift frame frame') :
    Shows event frame' := by
  cases shift with
  | same => exact shown
  | rest _ _ _ _ _ _ _ ends =>
    cases event with
    | expired => exact ends.mpr shown
    | registered | mutated | released => exact shown
  | answer _ _ _ _ before =>
    cases event with
    | registered => trivial
    | released => exact ⟨shown.2.1, congrArg some shown.2.2⟩
    | mutated => cases shown
    | expired => exact (before shown).elim
  | giveUp _ _ _ flags undecided =>
    cases event with
    | registered => trivial
    | released => exact Bool.noConfusion (undecided.symm.trans shown.1)
    | mutated => cases shown
    | expired => rfl
  | refuse | cancel => exact (Shows.began shown).elim
  | read | onward => cases event <;> exact shown
  | done =>
    cases event with
    | mutated => trivial
    | registered | released | expired => cases shown

/-- The log and the frames agree, and what is in the list is undecided. -/
structure Traced (s : State) : Prop where
  orderly : Orderly s
  flags : s.group.flags = current s.log
  reading : ∀ call walk, s.frames call = .walk walk .reading → walk.cancelAll = true
  undecided : ∀ call record timeoutMs verdict,
    s.frames call = .waiting record timeoutMs verdict .expired → record.signaled = false
  witnessed : ∀ event ∈ s.log, Shows event (s.frames (subject event))
  joined : ∀ call record timeoutMs verdict point,
    s.frames call = .waiting record timeoutMs verdict point →
    .registered call record.pattern record.mode ∈ s.log
  ended : ∀ call pattern mode, .registered call pattern mode ∈ s.log → call ∈ s.group.waiters ∨
    (∃ waker result flags, .released call waker result flags ∈ s.log) ∨ .expired call ∈ s.log

theorem Traced.created (owner : Nat) : Traced (created owner) where
  orderly := Orderly.created owner
  flags := rfl
  reading := fun _ _ here => by cases here
  undecided := fun _ _ _ _ here => by cases here
  witnessed := fun _ isIn => by cases isIn
  joined := fun _ _ _ _ _ here => by cases here
  ended := fun _ _ _ isIn => by cases isIn

variable {s' : State}

theorem Traced.quiet_or {label : Label} (traced : Traced s)
    (effect : Effect s label s') : Quiet s s' ∨ Logged s label s' := by
  cases effect with
  | logged _ _ change => exact .inr change
  | rest _ _ record timeoutMs verdict verdict' point point' queued here before after _ =>
    refine .inl (Quiet.one rfl rfl here
      (.rest record timeoutMs verdict verdict' point point' queued ?_))
    exact ⟨fun same => (after same).elim, fun same => (before same).elim⟩
  | answer _ _ record timeoutMs verdict point here checks decided =>
    have before : point ≠ .expired := by
      rcases checks with rfl | rfl | rfl <;> decide
    exact .inl (Quiet.one rfl rfl here (.answer record timeoutMs verdict point before decided))
  | giveUp _ call record timeoutMs verdict here =>
    exact .inl (Quiet.one rfl rfl here (.giveUp record timeoutMs verdict _
      (traced.undecided call record timeoutMs verdict here)))
  | refuse _ _ frame here ends => exact .inl (Quiet.one rfl rfl here (.refuse frame ends))
  | poison _ _ destroys here => exact .inl (Quiet.one rfl rfl here (.cancel destroys))
  | read _ call walk here =>
    exact .inl (Quiet.one rfl rfl here (.read walk _ (traced.reading call walk here)))
  | wake _ call walk c _ again here =>
    left
    refine ⟨rfl, rfl, rfl, fun other => ?_⟩
    simp only [setFrame_frames]
    by_cases walker : other = call
    · rw [walker, update_self, here]
      refine .onward walk _ _ ?_ (by simp)
      cases again <;> rfl
    · rw [update_of_ne walker]
      by_cases woken : other = c
      · rw [woken, update_self]
        exact Shift.wake _
      · rw [update_of_ne woken]
        exact .same _
  | again _ _ walk here => exact .inl (Quiet.one rfl rfl here (.onward walk _ _ rfl (by simp)))
  | done _ _ walk _ here ends =>
    rcases ends with rfl | rfl
    · exact .inl (Quiet.one rfl rfl here (.onward walk _ _ rfl (by simp)))
    · exact .inl (Quiet.one rfl rfl here (.done walk _ rfl))

theorem Traced.quiet (traced : Traced s) (orderly : Orderly s')
    (quiet : Quiet s s') : Traced s' where
  orderly := orderly
  flags := by rw [quiet.flags, quiet.log, traced.flags]
  reading := by
    intro call walk here
    have shift := quiet.frames call
    rw [here] at shift
    rcases shift.reading with before | cancels
    · exact traced.reading call walk before
    · exact cancels
  undecided := by
    intro call record timeoutMs verdict here
    have shift := quiet.frames call
    rw [here] at shift
    obtain ⟨record', timeoutMs', verdict', _, before, same, ends⟩ := shift.record
    rw [ends.mp rfl] at before
    rw [same]
    exact traced.undecided call record' timeoutMs' verdict' before
  witnessed := by
    intro event isIn
    rw [quiet.log] at isIn
    exact (traced.witnessed event isIn).shift (quiet.frames _)
  joined := by
    intro call record timeoutMs verdict point here
    have shift := quiet.frames call
    rw [here] at shift
    obtain ⟨record', timeoutMs', verdict', point', before, same, -⟩ := shift.record
    rw [quiet.log, same]
    exact traced.joined call record' timeoutMs' verdict' point' before
  ended := by
    intro call pattern mode isIn
    rw [quiet.log] at isIn ⊢
    rw [quiet.waiters]
    exact traced.ended call pattern mode isIn

theorem Shows.update {frames : CallId → Frame} {log : List Event}
    (witnessed : ∀ event ∈ log, Shows event (frames (subject event)))
    (keeps : ∀ event, Shows event (frames call) → Shows event frame) :
    ∀ event ∈ log, Shows event (update frames call frame (subject event)) := by
  intro event isIn
  by_cases same : subject event = call
  · rw [same, update_self]
    exact keeps event (same ▸ witnessed event isIn)
  · rw [update_of_ne same]
    exact witnessed event isIn

theorem Shows.fresh {frames : CallId → Frame} (here : frames call = .idle) :
    ∀ event, Shows event (frames call) → Shows event frame := by
  intro event shown
  rw [here] at shown
  exact (Shows.began shown).elim

theorem Shows.mark (shown : Shows event frame) (pending : Pending frame) :
    Shows event (walk.mark frame) := by
  cases frame with
  | waiting =>
    cases event with
    | released => exact Bool.noConfusion (pending.1.symm.trans shown.1)
    | registered | mutated | expired => exact shown
  | idle | waited | walk | returned => exact pending.elim

theorem mark_waiting {record : Waiter}
    (marked : walk.mark frame = .waiting record timeoutMs verdict point) :
    ∃ record', frame = .waiting record' timeoutMs verdict point ∧ record = { record' with
        result := walk.decision
        resultFlags := walk.snapshot
        signaled := true } := by
  cases frame with
  | waiting record' =>
    injection marked with isRecord isTimeout isVerdict isPoint
    exact ⟨record', by rw [isTimeout, isVerdict, isPoint], isRecord.symm⟩
  | idle | waited | walk | returned => cases marked

theorem mark_walk {walk' : Walk} {point : WalkPoint} (marked : walk.mark frame = .walk walk' point)
    : frame = .walk walk' point := by
  cases frame with
  | waiting => cases marked
  | idle | waited | walk | returned => exact marked

theorem Traced.append (traced : Traced s) {group : Group} {events : List Event}
    (orderly : Orderly ⟨group, update s.frames call frame, s.log ++ events⟩)
    (flags : group.flags = current (s.log ++ events)) (keeps : ∀ event, Shows event
    (s.frames call) → Shows event frame) (new : ∀ event ∈ events, subject event = call ∧
    Shows event frame) (reading : ∀ walk, frame ≠ .walk walk .reading)
    (undecided : ∀ record timeoutMs verdict, frame = .waiting record timeoutMs verdict .expired →
      record.signaled = false) (joined : ∀ record timeoutMs verdict point,
      frame = .waiting record timeoutMs verdict point →
      .registered call record.pattern record.mode ∈ s.log ++ events)
    (ended : ∀ c pattern mode, .registered c pattern mode ∈ s.log ++ events → c ∈ group.waiters ∨
      (∃ waker result flags, .released c waker result flags ∈ s.log ++ events) ∨
      .expired c ∈ s.log ++ events) :
    Traced ⟨group, update s.frames call frame, s.log ++ events⟩ where
  orderly := orderly
  flags := flags
  reading := by
    intro c walk here
    change update s.frames call frame c = _ at here
    by_cases same : c = call
    · rw [same, update_self] at here
      exact (reading walk here).elim
    · rw [update_of_ne same] at here
      exact traced.reading c walk here
  undecided := by
    intro c record timeoutMs verdict here
    change update s.frames call frame c = _ at here
    by_cases same : c = call
    · rw [same, update_self] at here
      exact undecided record timeoutMs verdict here
    · rw [update_of_ne same] at here
      exact traced.undecided c record timeoutMs verdict here
  witnessed := by
    intro event isIn
    rcases mem_append.mp isIn with old | isNew
    · exact Shows.update traced.witnessed keeps event old
    obtain ⟨about, shown⟩ := new event isNew
    rw [about]
    simpa using shown
  joined := by
    intro c record timeoutMs verdict point here
    change update s.frames call frame c = _ at here
    by_cases same : c = call
    · rw [same, update_self] at here
      rw [same]
      exact joined record timeoutMs verdict point here
    · rw [update_of_ne same] at here
      exact mem_append_left _ (traced.joined c record timeoutMs verdict point here)
  ended := ended

theorem Traced.ended_append (traced : Traced s) (events : List Event)
    {pattern : Flags} {mode : Nat} (old : .registered call pattern mode ∈ s.log) :

    call ∈ s.group.waiters ∨
    (∃ waker result flags, .released call waker result flags ∈ s.log ++ events) ∨
    .expired call ∈ s.log ++ events := by
  rcases traced.ended call pattern mode old with listed | released | expired
  · exact .inl listed
  · obtain ⟨waker, result, flags, isIn⟩ := released
    exact .inr (.inl ⟨waker, result, flags, mem_append_left _ isIn⟩)
  · exact .inr (.inr (mem_append_left _ expired))

theorem takeBatch_waiting {c : CallId} {record : Waiter}
    (after : (takeBatch s call walk).frames c = .waiting record timeoutMs verdict point) :
    ∃ record', s.frames c = .waiting record' timeoutMs verdict point ∧
      ((c ∉ taken s walk ∧ record = record') ∨ (c ∈ taken s walk ∧ record = { record' with
          result := walk.decision
          resultFlags := walk.snapshot
          signaled := true })) := by
  have other : c ≠ call := by
    rintro rfl
    rw [takeBatch_self] at after
    cases after
  rw [takeBatch_other s walk other] at after
  split at after
  case isTrue isTaken =>
    obtain ⟨record', before, same⟩ := mark_waiting after
    exact ⟨record', before, .inr ⟨isTaken, same⟩⟩
  case isFalse notTaken => exact ⟨record, after, .inl ⟨notTaken, rfl⟩⟩

theorem Traced.take (traced : Traced s) (orderly : Orderly (takeBatch s call walk))
    (here : s.frames call = .walk walk .walking) : Traced (takeBatch s call walk) where
  orderly := orderly
  flags := by rw [takeBatch_flags, takeBatch_log, current_released, traced.flags]
  reading := by
    intro c walk' after
    by_cases same : c = call
    · rw [same, takeBatch_self] at after
      cases after
    · rw [takeBatch_other s walk same] at after
      split at after
      · exact traced.reading c walk' (mark_walk after)
      · exact traced.reading c walk' after
  undecided := by
    intro c record timeoutMs verdict after
    obtain ⟨_, before, ⟨-, rfl⟩ | ⟨isTaken, -⟩⟩ := takeBatch_waiting after
    · exact traced.undecided c record timeoutMs verdict before
    have pending := traced.orderly.pending c (mem_waiters.mpr (.inl isTaken))
    rw [before] at pending
    exact (pending.2 rfl).elim
  witnessed := by
    intro event isIn
    rw [takeBatch_log] at isIn
    rcases mem_append.mp isIn with old | isNew
    · have shown := traced.witnessed event old
      by_cases same : subject event = call
      · rw [same, here] at shown
        rw [same, takeBatch_self]
        cases event <;> exact shown
      · rw [takeBatch_other s walk same]
        split
        case isTrue isTaken =>
          exact shown.mark (traced.orderly.pending _ (mem_waiters.mpr (.inl isTaken)))
        case isFalse notTaken => exact shown
    · obtain ⟨c, isTaken, rfl⟩ := mem_map.mp isNew
      have pending := traced.orderly.pending c (mem_waiters.mpr (.inl isTaken))
      have other : c ≠ call := by
        rintro rfl
        rw [here] at pending
        exact pending
      show Shows _ ((takeBatch s call walk).frames c)
      rw [takeBatch_other s walk other, if_pos isTaken]
      cases before : s.frames c with
      | waiting => exact ⟨rfl, rfl, rfl⟩
      | idle | waited | walk | returned =>
        rw [before] at pending
        exact pending.elim
  joined := by
    intro c record timeoutMs verdict point after
    obtain ⟨record', before, ⟨-, rfl⟩ | ⟨-, rfl⟩⟩ := takeBatch_waiting after
    · exact mem_append_left _ (traced.joined c record timeoutMs verdict point before)
    · exact mem_append_left _ (traced.joined c record' timeoutMs verdict point before)
  ended := by
    intro c pattern mode isIn
    have old : .registered c pattern mode ∈ s.log := by
      rcases mem_append.mp isIn with old | isNew
      · exact old
      · obtain ⟨_, _, differs⟩ := mem_map.mp isNew
        cases differs
    rcases traced.ended_append _ old with listed | ended
    · rcases mem_waiters.mp listed with isTaken | isLeft
      · refine .inr (.inl ⟨call, walk.decision, walk.snapshot, ?_⟩)
        exact mem_append_right _ (mem_map.mpr ⟨c, isTaken, rfl⟩)
      · exact .inl isLeft
    · exact .inr ended

theorem Traced.ended_concat (traced : Traced s) {waiters : List CallId}
    (same : ∀ c ∈ s.group.waiters, c ∈ waiters ∨ event = .expired c)
    (other : ∀ c pattern mode, event ≠ .registered c pattern mode) (c : CallId) (pattern : Flags)
    (mode : Nat) (isIn : .registered c pattern mode ∈ s.log ++ [event]) :
    c ∈ waiters ∨ (∃ waker result flags, .released c waker result flags ∈ s.log ++ [event]) ∨
    .expired c ∈ s.log ++ [event] := by
  rcases mem_append.mp isIn with old | isNew
  · rcases traced.ended_append [event] old with listed | ended
    · rcases same c listed with still | rfl
      · exact .inl still
      · exact .inr (.inr (by simp))
    · exact .inr ended
  · exact (other c pattern mode (mem_singleton.mp isNew).symm).elim

theorem Traced.logged {label : Label} (traced : Traced s)
    (change : Logged s label s') : Traced s' := by
  have orderly := traced.orderly.logged change
  cases change with
  | expire _ call record timeoutMs verdict here undecided =>
    refine traced.append orderly ?_ ?_ ?_ (by simp) ?_ ?_ ?_
    · rw [current_concat]
      exact traced.flags
    · intro event shown
      rw [here] at shown
      cases event with
      | registered | mutated => exact shown
      | released => exact Bool.noConfusion (undecided.symm.trans shown.1)
      | expired => rfl
    · intro event isNew
      rw [mem_singleton.mp isNew]
      exact ⟨rfl, rfl⟩
    · rintro _ _ _ ⟨⟩
      exact undecided
    · rintro _ _ _ _ ⟨⟩
      exact mem_append_left _ (traced.joined call record timeoutMs verdict _ here)
    · refine traced.ended_concat ?_ (by simp)
      intro c listed
      by_cases same : c = call
      · exact .inr (same ▸ rfl)
      · exact .inl ((mem_erase_of_ne same).mpr listed)
  | immediate _ call pattern mode here =>
    have log : s.log ++ [.registered call pattern mode] ++ [.released call call .ok s.group.flags] =
        s.log ++ [.registered call pattern mode, .released call call .ok s.group.flags] := by simp
    rw [State.record, State.record] at orderly ⊢
    simp only [setFrame_log, setFrame_group, setFrame_frames, log] at orderly ⊢
    refine traced.append orderly ?_ (Shows.fresh here) ?_ (by simp) (by simp) (by simp) ?_
    · rw [← log, current_concat, current_concat]
      exact traced.flags
    · intro event isNew
      simp only [mem_cons, not_mem_nil, or_false] at isNew
      rcases isNew with rfl | rfl
      · exact ⟨rfl, trivial⟩
      · exact ⟨rfl, rfl, rfl⟩
    · intro c pattern' mode' isIn
      rcases mem_append.mp isIn with old | isNew
      · exact traced.ended_append _ old
      have same : c = call := by simp at isNew; exact isNew.1
      refine .inr (.inl ⟨call, .ok, s.group.flags, ?_⟩)
      rw [same]
      simp
  | enlist call _ _ _ here =>
    refine traced.append orderly ?_ (Shows.fresh here) ?_ (by simp) (by simp) ?_ ?_
    · rw [current_concat]
      exact traced.flags
    · intro event isNew
      rw [mem_singleton.mp isNew]
      exact ⟨rfl, rfl, rfl⟩
    · rintro _ _ _ _ ⟨⟩
      simp
    intro c pattern' mode' isIn
    rcases mem_append.mp isIn with old | isNew
    · rcases traced.ended_append _ old with listed | ended
      · exact .inl (mem_append_left _ listed)
      · exact .inr ended
    · have same : c = call := by simp at isNew; exact isNew.1
      exact .inl (by simp [same])
  | mutate _ _ _ here =>
    refine traced.append orderly ?_ (Shows.fresh here) ?_ (by simp) (by simp) (by simp) ?_
    · rw [current_concat]
      rfl
    · intro event isNew
      rw [mem_singleton.mp isNew]
      exact ⟨rfl, rfl⟩
    · exact traced.ended_concat (fun c listed => .inl listed) (by simp)
  | zero _ _ _ _ _ here =>
    refine traced.append orderly ?_ ?_ ?_ (by simp) (by simp) (by simp) ?_
    · rw [current_concat]
      rfl
    · rcases here with idle | ⟨walk, closing⟩
      · exact Shows.fresh idle
      intro event shown
      rw [closing] at shown
      cases event with
      | mutated => trivial
      | registered | released | expired => exact shown
    · intro event isNew
      rw [mem_singleton.mp isNew]
      exact ⟨rfl, trivial⟩
    · exact traced.ended_concat (fun c listed => .inl listed) (by simp)
  | take _ _ _ here => exact traced.take orderly here

theorem Traced.effect {label : Label} (traced : Traced s)
    (effect : Effect s label s') : Traced s' := by
  rcases traced.quiet_or effect with quiet | change
  · exact traced.quiet (traced.orderly.effect effect) quiet
  · exact traced.logged change

end MainDob.Proofs.EventGroupTrace
