/-
Purpose: What one step on an event group can do, and what holds of the list of
  waiters in every run: whoever is in it is inside its wait and undecided.
Main exports: Effect, exec_effect, Orderly
-/
import MainDob.Kernel.EventGroup

namespace MainDob.Proofs.EventGroupSteps

open Function (update update_of_ne update_self)
open Lib Kernel.EventGroup
open List

section

variable (s : State) (call : CallId) (frame : Frame)
include s call frame

@[simp] theorem setFrame_group :
    (s.setFrame call frame).group = s.group := rfl

@[simp] theorem setFrame_log :
    (s.setFrame call frame).log = s.log := rfl

@[simp] theorem setFrame_frames :
    (s.setFrame call frame).frames = update s.frames call frame := rfl

end

section

variable (s : State) (event : Event)
include s event

@[simp] theorem record_group :
    (s.record event).group = s.group := rfl

@[simp] theorem record_frames :
    (s.record event).frames = s.frames := rfl

@[simp] theorem record_log :
    (s.record event).log = s.log ++ [event] := rfl

end

/-- The records a walk takes in its locked section. -/
def taken (s : State) (walk : Walk) : List CallId :=
  (collect (fun c => walk.wants (s.frames c)) batchSize s.group.waiters).1

/-- The records a walk leaves in the list. -/
def left (s : State) (walk : Walk) : List CallId :=
  (collect (fun c => walk.wants (s.frames c)) batchSize s.group.waiters).2

section

variable (s : State) (call : CallId) (walk : Walk)
include s call walk

@[simp] theorem takeBatch_flags :
    (takeBatch s call walk).group.flags = s.group.flags := rfl

@[simp] theorem takeBatch_log :
    (takeBatch s call walk).log = s.log ++ (taken s walk).map fun c =>
      .released c call walk.decision walk.snapshot := rfl

theorem takeBatch_frames :
    (takeBatch s call walk).frames = update
      (fun c => if c ∈ taken s walk then walk.mark (s.frames c) else s.frames c) call
      (.walk walk (.waking (taken s walk) (batchSize ≤ (taken s walk).length))) := rfl

@[simp] theorem takeBatch_self : (takeBatch s call walk).frames call = .walk walk
    (.waking (taken s walk) (batchSize ≤ (taken s walk).length)) := by
  rw [takeBatch_frames, update_self]

end

variable {call : CallId}

theorem takeBatch_other (s : State) {c : CallId} (walk : Walk) (other : c ≠ call) :
    (takeBatch s call walk).frames c =
      if c ∈ taken s walk then walk.mark (s.frames c) else s.frames c := by
  rw [takeBatch_frames, update_of_ne other]

/-- Does the step set the flags to zero without a walk after it? -/
def zeroes (s : State) : Label → Bool
  | .reset _ => s.group.used
  | .create _ _ => !s.group.used
  | .go call _ =>
    match s.frames call with
    | .walk _ .closing => true
    | _ => false
  | _ => false

/-- What the sections that go into the log do. -/
inductive Logged (s : State) : Label → State → Prop where
  /-- A wait takes its record back at its timeout. -/
  | expire (armed : Bool) (call : CallId) (record : Waiter) (timeoutMs : Nat)
      (verdict : WaitResult)
      (here : s.frames call = .waiting record timeoutMs verdict .expiring)
      (undecided : record.signaled = false) :
      Logged s (.go call armed) (({ s with group := { s.group with
          waiters := s.group.waiters.erase call }
        }.setFrame call (.waiting record timeoutMs verdict .expired)).record (.expired call))
  /-- A wait finds its pattern in the flags. -/
  | immediate (timeoutMs : Nat) (call : CallId) (pattern : Flags) (mode : Nat)
      (here : s.frames call = .idle)
      (fits : patternMatch s.group.flags pattern mode = true) :
      Logged s (.wait call pattern mode timeoutMs)
        (((s.setFrame call (.waited .ok (some s.group.flags))).record
          (.registered call pattern mode)).record (.released call call .ok s.group.flags))
  /-- A wait enters its record in the list. -/
  | enlist (call : CallId) (pattern : Flags) (mode timeoutMs : Nat)
      (here : s.frames call = .idle)
      (opened : s.group.used = true ∧ s.group.poisoned = false)
      (differs : patternMatch s.group.flags pattern mode = false) :
      Logged s (.wait call pattern mode timeoutMs) (({ s with group := { s.group with
          waiters := s.group.waiters ++ [call] }
        }.setFrame call (.waiting ⟨pattern, mode, false, .timeout, 0, false⟩ timeoutMs .ok
            .listed)).record (.registered call pattern mode))
  /-- `set`, `clear` and `pulse` change the flags. -/
  | mutate (call : CallId) (op : Mutation) (bits : Flags)
      (here : s.frames call = .idle) :
      Logged s (.mutate call op bits) (({ s with group := { s.group with
          flags := (op.apply s.group.flags bits).2 }
        }.setFrame call (.walk ⟨(op.apply s.group.flags bits).1, false, false⟩ .walking)).record
            (.mutated call (op.apply s.group.flags bits).1 (op.apply s.group.flags bits).2))
  /-- The flags go to zero without a walk. -/
  | zero (label : Label) (call : CallId) (used poisoned : Bool) (owner : Nat)
      (here : s.frames call = .idle ∨ ∃ walk, s.frames call = .walk walk .closing)
      (how : zeroes s label = true) :
      Logged s label (({ s with group :=
          ⟨used, poisoned, owner, 0, s.group.waiters⟩
        }.setFrame call (.returned 0)).record (.mutated call 0 0))
  /-- A walk takes a batch. -/
  | take (armed : Bool) (call : CallId) (walk : Walk)
      (here : s.frames call = .walk walk .walking) :
      Logged s (.go call armed) (takeBatch s call walk)

/-- What a step of each kind does. -/
inductive Effect (s : State) : Label → State → Prop where
  /-- A section that goes into the log. -/
  | logged (label : Label) (s' : State) (change : Logged s label s') :
      Effect s label s'
  /-- A wait moves on, undecided by this step. -/
  | rest (label : Label) (call : CallId) (record : Waiter) (timeoutMs : Nat)
      (verdict verdict' : WaitResult) (point point' : WaitPoint)
      (queued : Bool)
      (here : s.frames call = .waiting record timeoutMs verdict point)
      (before : point ≠ .expired) (after : point' ≠ .expired)
      (stays : point' = .asleep → record.signaled = false ∨ queued = false) :
      Effect s label (s.setFrame call (.waiting { record with queued := queued }
        timeoutMs verdict' point'))
  /-- A wait returns what a walk decided. -/
  | answer (armed : Bool) (call : CallId) (record : Waiter) (timeoutMs : Nat)
      (verdict : WaitResult) (point : WaitPoint)
      (here : s.frames call = .waiting record timeoutMs verdict point)
      (checks : point = .prepared ∨ point = .awake ∨ point = .expiring)
      (decided : record.signaled = true) :
      Effect s (.go call armed) (s.setFrame call (.waited record.result (some record.resultFlags)))
  /-- A wait returns `WAIT_TIMEOUT`. -/
  | giveUp (armed : Bool) (call : CallId) (record : Waiter) (timeoutMs : Nat)
      (verdict : WaitResult)
      (here : s.frames call = .waiting record timeoutMs verdict .expired) :
      Effect s (.go call armed) (s.setFrame call (.waited .timeout (some s.group.flags)))
  /-- A call returns at once and changes nothing. -/
  | refuse (label : Label) (call : CallId) (frame : Frame)
      (here : s.frames call = .idle)
      (ends : (∃ code, frame = .returned code) ∨
        ∃ result flags, frame = .waited result flags ∧ result ≠ .ok) :
      Effect s label (s.setFrame call frame)
  /-- `poison` and `destroy` close the group to new waits. -/
  | poison (label : Label) (call : CallId) (destroys : Bool)
      (here : s.frames call = .idle) :
      Effect s label ({ s with group := { s.group with poisoned := true }
        }.setFrame call (.walk ⟨0, true, destroys⟩ .reading))
  /-- A cancelling walk reads the flags it reports. -/
  | read (armed : Bool) (call : CallId) (walk : Walk)
      (here : s.frames call = .walk walk .reading) :
      Effect s (.go call armed) (s.setFrame call
        (.walk { walk with snapshot := s.group.flags } .walking))
  /-- A walk wakes the first record of its batch. -/
  | wake (armed : Bool) (call : CallId) (walk : Walk) (c : CallId)
      (batch : List CallId) (again : Bool)
      (here : s.frames call = .walk walk (.waking (c :: batch) again)) :
      Effect s (.go call armed) ((s.setFrame c (s.frames c).wake).setFrame call
        (.walk walk (.waking batch again)))
  /-- A walk whose batch was full goes round again. -/
  | again (armed : Bool) (call : CallId) (walk : Walk)
      (here : s.frames call = .walk walk (.waking [] true)) :
      Effect s (.go call armed) (s.setFrame call (.walk walk .walking))
  /-- A walk ends. -/
  | done (armed : Bool) (call : CallId) (walk : Walk) (frame : Frame)
      (here : s.frames call = .walk walk (.waking [] false))
      (ends : frame = .walk walk .closing ∨ frame = .returned 0) :
      Effect s (.go call armed) (s.setFrame call frame)

variable {s s' : State}

theorem begin_some {after : State} (done : begin s call after = some s') :
    s.frames call = .idle ∧ s' = after := by
  simp only [begin, Option.ite_none_right_eq_some, Option.some.injEq] at done
  exact ⟨done.1, done.2.symm⟩

theorem waitStep_effect {armed : Bool} {record : Waiter} {timeoutMs : Nat} {verdict : WaitResult}
    {point : WaitPoint} (here : s.frames call = .waiting record timeoutMs verdict point)
    (done : waitStep s call armed record timeoutMs verdict point = some s') :
    Effect s (.go call armed) s' := by
  cases point with
  | listed =>
    simp only [waitStep] at done
    split at done <;> cases done
    · exact .rest _ call record timeoutMs verdict .timeout .listed .prepared
        false here (by decide) (by decide) nofun
    · exact .rest _ call record timeoutMs verdict .ok .listed .prepared
        true here (by decide) (by decide) nofun
  | prepared =>
    simp only [waitStep] at done
    split at done
    case isTrue decided =>
      cases done
      exact .answer armed call record timeoutMs verdict _ here (by simp) decided
    case isFalse undecided =>
      cases done
      exact .rest _ call record timeoutMs verdict verdict .prepared .asleep
        record.queued here (by decide) (by decide) fun _ => .inl (by simpa using undecided)
  | asleep =>
    simp only [waitStep] at done
    split at done <;> cases done
    exact .rest _ call record timeoutMs verdict verdict .asleep .awake
      record.queued here (by decide) (by decide) nofun
  | awake =>
    simp only [waitStep] at done
    split at done
    case isTrue decided =>
      cases done
      exact .answer armed call record timeoutMs verdict _ here (by simp) decided
    case isFalse undecided =>
      split at done <;> cases done
      · exact .rest _ call record timeoutMs verdict verdict .awake .expiring
          record.queued here (by decide) (by decide) nofun
      · exact .rest _ call record timeoutMs verdict verdict .awake .listed
          record.queued here (by decide) (by decide) nofun
  | expiring =>
    simp only [waitStep, expire] at done
    split at done
    case isTrue decided =>
      cases done
      exact .answer armed call record timeoutMs verdict _ here (by simp) decided
    case isFalse undecided =>
      cases done
      exact .logged _ _ (.expire armed call record timeoutMs verdict here
        (by simpa using undecided))
  | expired =>
    cases done
    exact .giveUp armed call record timeoutMs verdict here

variable {walk : Walk}

theorem walkStep_effect (armed : Bool) {point : WalkPoint} (here : s.frames call = .walk walk point)
    : Effect s (.go call armed) (walkStep s call walk point) := by
  cases point with
  | reading => exact .read armed call walk here
  | walking => exact .logged _ _ (.take armed call walk here)
  | closing =>
    exact .logged _ _ (.zero _ call false false 0 (.inr ⟨walk, here⟩) (by simp [zeroes, here]))
  | waking batch again =>
    cases batch with
    | cons c batch => exact .wake armed call walk c batch again here
    | nil =>
      cases again with
      | true => exact .again armed call walk here
      | false =>
        simp only [walkStep]
        split
        · exact .done armed call walk _ here (.inl rfl)
        · exact .done armed call walk _ here (.inr rfl)

theorem poisonWith_effect (label : Label) (destroys : Bool) (code : Int)
    (here : s.frames call = .idle) : Effect s label (poisonWith s call destroys code) := by
  simp only [poisonWith]
  split
  · exact .refuse _ call _ here (.inl ⟨code, rfl⟩)
  · exact .poison _ call destroys here

theorem exec_effect {label : Label} (done : step s label s') : Effect s label s' := by
  cases label with
  | create call owner =>
    obtain ⟨here, rfl⟩ := begin_some done
    simp only [eventGroupCreate]
    split
    case isTrue used => exact .refuse _ call _ here (.inl ⟨-1, rfl⟩)
    case isFalse unused =>
      exact .logged _ _ (.zero _ call true false owner (.inl here) (by simpa [zeroes] using unused))
  | destroy =>
    obtain ⟨here, rfl⟩ := begin_some done
    exact poisonWith_effect _ true 0 here
  | mutate call op bits =>
    obtain ⟨here, rfl⟩ := begin_some done
    simp only [mutateAndWake]
    split
    · exact .refuse _ call _ here (.inl ⟨-1, rfl⟩)
    · exact .logged _ _ (.mutate call op bits here)
  | poison =>
    obtain ⟨here, rfl⟩ := begin_some done
    exact poisonWith_effect _ false (-1) here
  | reset call =>
    obtain ⟨here, rfl⟩ := begin_some done
    simp only [eventGroupReset]
    split
    case isTrue unused => exact .refuse _ call _ here (.inl ⟨-1, rfl⟩)
    case isFalse used =>
      exact .logged _ _ (.zero _ call s.group.used false s.group.ownerPid
        (.inl here) (by simpa [zeroes] using used))
  | wait call pattern mode timeoutMs =>
    obtain ⟨here, rfl⟩ := begin_some done
    simp only [eventGroupWait]
    split
    case isTrue unused => exact .refuse _ call _ here (.inr ⟨_, _, rfl, by decide⟩)
    case isFalse used =>
    split
    case isTrue poisoned => exact .refuse _ call _ here (.inr ⟨_, _, rfl, by decide⟩)
    case isFalse clean =>
    split
    case isTrue fits => exact .logged _ _ (.immediate timeoutMs call pattern mode here fits)
    case isFalse differs =>
      exact .logged _ _ (.enlist call pattern mode timeoutMs here
        ⟨by simpa using used, by simpa using clean⟩ (by simpa using differs))
  | go _ armed =>
    simp only [step, exec, goOn] at done
    split at done
    case h_1 record timeoutMs verdict point here => exact waitStep_effect here done
    case h_2 walk point here =>
      cases done
      exact walkStep_effect armed here
    case h_3 => cases done
  | fire call =>
    simp only [step, exec, timerFire] at done
    split at done
    case h_1 record timeoutMs verdict point here =>
      simp only [Option.ite_none_right_eq_some] at done
      obtain ⟨⟨-, -, sleeping⟩, moved⟩ := done
      cases moved
      have before : point ≠ .expired := by
        rcases sleeping with rfl | rfl <;> decide
      exact .rest _ call record timeoutMs verdict .timeout point point false here before before
        fun _ => .inr rfl
    case h_2 => cases done
  | stray call =>
    simp only [step, exec, strayWake] at done
    split at done
    case h_1 record timeoutMs verdict here =>
      cases done
      exact .rest _ call record timeoutMs verdict verdict .asleep .awake
        record.queued here (by decide) (by decide) nofun
    case h_2 => cases done

/-- A wait that no walk has decided and that has not given up. -/
def Pending : Frame → Prop
  | .waiting record _ _ point => record.signaled = false ∧ point ≠ .expired
  | _ => False

theorem mem_waiters {c : CallId} : c ∈ s.group.waiters ↔ c ∈ taken s walk ∨ c ∈ left s walk :=
  mem_collect

theorem taken_wants {c : CallId} (isTaken : c ∈ taken s walk) : walk.wants (s.frames c) = true := by
  have wanted := collect_wanted isTaken
  exact wanted

theorem left_unwanted {c : CallId} (short : ¬ batchSize ≤ (taken s walk).length)
    (isLeft : c ∈ left s walk) : walk.wants (s.frames c) = false := by
  have unwanted := collect_dry (Nat.lt_of_not_le short) isLeft
  exact unwanted

/-- A call that is not in its wait is in no list of waiters. -/
structure Orderly (s : State) : Prop where
  once : s.group.waiters.Nodup
  pending : ∀ c ∈ s.group.waiters, Pending (s.frames c)

theorem Orderly.created (owner : Nat) : Orderly (created owner) where
  once := nodup_nil
  pending := fun _ isListed => by cases isListed

section

variable (orderly : Orderly s)
include orderly

theorem Orderly.split (walk : Walk) :
    (taken s walk).Nodup ∧ (left s walk).Nodup ∧ ∀ c ∈ taken s walk, c ∉ left s walk := by
  have parts := nodup_append.mp ((collect_perm (fun c => walk.wants (s.frames c)) batchSize
    s.group.waiters).nodup_iff.mpr orderly.once)
  exact ⟨parts.1, parts.2.1, fun c isTaken isLeft => parts.2.2 c isTaken c isLeft rfl⟩

theorem Orderly.unlisted {frame : Frame} (here : s.frames call = frame)
    (other : ¬ Pending frame) : call ∉ s.group.waiters :=
  fun isListed => other (here ▸ orderly.pending call isListed)

theorem Orderly.setFrame {group : Group} {log : List Event} {frame : Frame}
    (same : group.waiters = s.group.waiters) (apart : call ∉ s.group.waiters ∨ Pending frame) :
    Orderly ⟨group, update s.frames call frame, log⟩ where
  once := same ▸ orderly.once
  pending := by
    intro c isListed
    rw [same] at isListed
    show Pending (update s.frames call frame c)
    by_cases here : c = call
    · rw [here, update_self]
      exact apart.resolve_left (fun absent => absent (here ▸ isListed))
    · rw [update_of_ne here]
      exact orderly.pending c isListed

theorem Orderly.logged {label : Label} (change : Logged s label s') : Orderly s' := by
  cases change with
  | expire _ call =>
    have gone : call ∉ s.group.waiters.erase call := orderly.once.not_mem_erase
    refine ⟨orderly.once.erase call, fun c isListed => ?_⟩
    have other : c ≠ call := fun same => gone (same ▸ isListed)
    simp only [record_frames, setFrame_frames, update_of_ne other]
    exact orderly.pending c (mem_of_mem_erase isListed)
  | enlist call _ _ _ here =>
    have new : call ∉ s.group.waiters := orderly.unlisted here id
    constructor
    · exact nodup_append.mpr ⟨orderly.once, nodup_singleton call,
        fun c isListed other isCall same => new
          (by rw [mem_singleton.mp isCall] at same; exact same ▸ isListed)⟩
    intro c isListed
    by_cases same : c = call
    · rw [same]
      simp [Pending]
    · simp only [record_frames, setFrame_frames, update_of_ne same]
      refine orderly.pending c ?_
      simpa [same] using isListed
  | immediate | mutate => exact orderly.setFrame rfl (.inl (orderly.unlisted ‹_› id))
  | zero _ _ _ _ _ here =>
    refine orderly.setFrame rfl (.inl ?_)
    rcases here with here | ⟨walk, here⟩ <;> exact orderly.unlisted here id
  | take _ call walk here =>
    obtain ⟨-, leftOnce, apart⟩ := orderly.split walk
    refine ⟨leftOnce, fun c isLeft => ?_⟩
    have isListed : c ∈ s.group.waiters := mem_waiters.mpr (.inr isLeft)
    have pending := orderly.pending c isListed
    have other : c ≠ call := by
      rintro rfl
      rw [here] at pending
      exact pending
    have notTaken : c ∉ taken s walk := fun isTaken => apart c isTaken isLeft
    rw [takeBatch_other s walk other, if_neg notTaken]
    exact pending

theorem Orderly.effect {label : Label} (effect : Effect s label s') : Orderly s' := by
  cases effect with
  | logged _ _ change => exact orderly.logged change
  | rest _ _ record _ _ _ _ _ _ here _ after =>
    refine orderly.setFrame rfl ?_
    by_cases decided : record.signaled = false
    · exact .inr ⟨decided, after⟩
    · exact .inl (orderly.unlisted here fun pending => decided pending.1)
  | answer _ _ _ _ _ _ here _ decided =>
    refine orderly.setFrame rfl (.inl (orderly.unlisted here ?_))
    intro pending
    exact Bool.noConfusion (decided.symm.trans pending.1)
  | giveUp _ _ _ _ _ here =>
    exact orderly.setFrame rfl (.inl (orderly.unlisted here fun pending => pending.2 rfl))
  | wake _ _ _ c _ _ here =>
    have first : Orderly (s.setFrame c (s.frames c).wake) := by
      refine orderly.setFrame rfl ?_
      by_cases pending : Pending (s.frames c)
      · right
        cases frame : s.frames c <;> rw [frame] at pending <;> exact pending
      · exact .inl (orderly.unlisted rfl pending)
    exact first.setFrame rfl (.inl (orderly.unlisted here id))
  | refuse | poison | read | again | done =>
    exact orderly.setFrame rfl (.inl (orderly.unlisted ‹_› id))

end

end MainDob.Proofs.EventGroupSteps
