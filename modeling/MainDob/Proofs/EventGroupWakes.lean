/-
Purpose: Who is released from an event group, by whom and with which flags. The walk that follows
  a set, clear or pulse runs after the lock was dropped, so a wait that registers in between is
  compared with flags of the past.
Main exports: Unhurried, Reported, event_wakes
-/
import MainDob.Proofs.EventGroupTrace

namespace MainDob.Proofs.EventGroupWakes

open Function (update update_of_ne update_self update_apply)
open Lib Kernel.EventGroup EventGroupSteps EventGroupTrace
open List

variable {c : CallId} {pattern : Flags} {mode : Nat}

section Inversion

variable {s s' : State} {label : Label}

theorem unwalked_mark (walk : Walk) (frame : Frame) :
    unwalked (walk.mark frame) = unwalked frame := by
  cases frame <;> rfl

section

variable (change : Logged s label s')
include change

theorem ahead_before {k : CallId}
    {snapshot : Flags} (ahead : unwalked (s'.frames k) = some snapshot) :
    unwalked (s.frames k) = some snapshot ∨ ∃ op bits left, label = .mutate k op bits ∧
      s.frames k = .idle ∧ s'.log = s.log ++ [.mutated k snapshot left] := by
  cases change with
  | mutate _ op bits here =>
    simp only [record_frames, setFrame_frames, update_apply] at ahead
    split at ahead
    case isTrue same =>
      cases ahead
      exact .inr ⟨op, bits, _, by rw [same], by rw [same, here],
        by rw [same]; rfl⟩
    case isFalse other => exact .inl ahead
  | expire | immediate | enlist | zero =>
    simp only [record_frames, setFrame_frames, update_apply] at ahead
    split at ahead
    · cases ahead
    · exact .inl ahead
  | take _ call walk here =>
    left
    by_cases same : k = call
    · rw [same, takeBatch_self] at ahead
      rw [same, here]
      generalize decide (batchSize ≤ (taken s walk).length) = again at ahead
      cases again with
      | false => cases ahead
      | true => exact ahead
    · rw [takeBatch_other s walk same] at ahead
      split at ahead
      · rwa [unwalked_mark] at ahead
      · exact ahead

theorem listed_before (orderly : Orderly s) (listed : c ∈ s'.group.waiters) : (c ∈ s.group.waiters ∧
    s'.frames c = s.frames c) ∨ ∃ pattern mode timeoutMs, label = .wait c pattern mode timeoutMs ∧
      s.frames c = .idle ∧ (s.group.used = true ∧ s.group.poisoned = false) ∧
        patternMatch s.group.flags pattern mode = false ∧ s'.frames c = .waiting
        ⟨pattern, mode, false, .timeout, 0, false⟩ timeoutMs .ok .listed := by
  cases change with
  | expire _ call =>
    have other : c ≠ call := by
      rintro rfl
      exact orderly.once.not_mem_erase listed
    exact .inl ⟨mem_of_mem_erase listed, update_of_ne other ..⟩
  | immediate _ _ _ _ here =>
    refine .inl ⟨listed, update_of_ne ?_ ..⟩
    rintro rfl
    exact orderly.unlisted here id listed
  | enlist call pattern mode timeoutMs here opened differs =>
    by_cases same : c = call
    · subst same
      exact .inr ⟨pattern, mode, timeoutMs, rfl, here, opened, differs, update_self ..⟩
    · refine .inl ⟨?_, update_of_ne same ..⟩
      simpa [same] using listed
  | mutate _ _ _ here =>
    refine .inl ⟨listed, update_of_ne ?_ ..⟩
    rintro rfl
    exact orderly.unlisted here id listed
  | zero _ _ _ _ _ here =>
    refine .inl ⟨listed, update_of_ne ?_ ..⟩
    rintro rfl
    rcases here with here | ⟨walk, here⟩ <;> exact orderly.unlisted here id listed
  | take _ call walk here =>
    have before : c ∈ s.group.waiters := mem_waiters.mpr (.inr listed)
    have other : c ≠ call := by
      rintro rfl
      exact orderly.unlisted here id before
    have notTaken : c ∉ taken s walk := fun isTaken => (orderly.split walk).2.2 c isTaken listed
    exact .inl ⟨before, by rw [takeBatch_other s walk other, if_neg notTaken]⟩

/-- A record leaves the list in the locked section of a walk or of its timeout. -/
theorem listed_after (listed : c ∈ s.group.waiters) : c ∈ s'.group.waiters ∨
      (∃ armed call walk, label = .go call armed ∧ s.frames call = .walk walk .walking ∧
        c ∈ taken s walk ∧ s'.log = s.log ++ (taken s walk).map fun c =>
          .released c call walk.decision walk.snapshot) ∨
      ∃ armed record timeoutMs verdict, label = .go c armed ∧
        s.frames c = .waiting record timeoutMs verdict .expiring ∧ record.signaled = false := by
  cases change with
  | expire armed call record timeoutMs verdict here undecided =>
    by_cases same : c = call
    · subst same
      exact .inr (.inr ⟨armed, record, timeoutMs, verdict, rfl, here, undecided⟩)
    · exact .inl ((mem_erase_of_ne same).mpr listed)
  | enlist => exact .inl (mem_append_left _ listed)
  | immediate | mutate | zero => exact .inl listed
  | take armed call walk here =>
    rcases mem_waiters.mp listed with isTaken | isLeft
    · exact .inr (.inl ⟨armed, call, walk, rfl, here, isTaken, rfl⟩)
    · exact .inl isLeft

theorem ahead_after {k : CallId} {snapshot : Flags} (ahead : unwalked
    (s.frames k) = some snapshot) : unwalked (s'.frames k) = some snapshot ∨ ∀ c ∈ s'.group.waiters,
      ∀ record timeoutMs verdict point, s.frames c = .waiting record timeoutMs verdict point →
        patternMatch snapshot record.pattern record.mode = false := by
  have elsewhere {call : CallId} {frame frame' : Frame}
      (here : s.frames call = frame) (none_ : unwalked frame = none) :
      unwalked (update s.frames call frame' k) = some snapshot := by
    have other : k ≠ call := by
      rintro rfl
      rw [here, none_] at ahead
      cases ahead
    rw [update_of_ne other]
    exact ahead
  cases change with
  | expire | immediate | enlist | mutate => exact .inl (elsewhere ‹_› rfl)
  | zero _ _ _ _ _ here =>
    rcases here with here | ⟨walk, here⟩ <;> exact .inl (elsewhere here rfl)
  | take _ call walk here =>
    by_cases same : k = call
    · rw [same, here] at ahead
      rw [same, takeBatch_self]
      by_cases full : batchSize ≤ (taken s walk).length
      · rw [decide_eq_true full]
        exact .inl ahead
      right
      intro c isLeft record timeoutMs verdict point before
      have unwanted := left_unwanted full isLeft
      rw [before] at unwanted
      simp only [unwalked, Option.ite_none_left_eq_some, Option.some.injEq] at ahead
      rw [← ahead.2]
      exact (Bool.or_eq_false_iff.mp unwanted).2
    · left
      rw [takeBatch_other s walk same]
      split
      · rwa [unwalked_mark]
      · exact ahead

theorem registered_after {event : Event} (order : Before s'.log event
    (.registered c pattern mode)) : Before s.log event (.registered c pattern mode) ∨
    (event ∈ s.log ∧ s.frames c = .idle ∧ ∃ timeoutMs, label = .wait c pattern mode timeoutMs) := by
  cases change with
  | immediate timeoutMs _ _ _ here =>
    have first := order.of_append (by simp)
    rcases before_concat.mp first with old | ⟨isIn, same⟩
    · exact .inl old
    · cases same
      exact .inr ⟨isIn, here, timeoutMs, rfl⟩
  | enlist _ _ _ timeoutMs here =>
    rcases before_concat.mp order with old | ⟨isIn, same⟩
    · exact .inl old
    · cases same
      exact .inr ⟨isIn, here, timeoutMs, rfl⟩
  | expire | mutate | zero | take => exact .inl (order.of_append (by simp))

theorem mutated_after {event : Event} {k : CallId} {shown left : Flags} (order : Before s'.log event
    (.mutated k shown left)) : Before s.log event (.mutated k shown left) ∨ (event ∈ s.log ∧
      s'.group.waiters = s.group.waiters ∧ s'.log = s.log ++ [.mutated k shown left] ∧
        (unwalked (s'.frames k) = some shown ∨ (shown = 0 ∧ zeroes s label = true))) := by
  cases change with
  | immediate => exact .inl ((order.of_append (by simp)).of_append (by simp))
  | mutate =>
    rcases before_concat.mp order with old | ⟨isIn, same⟩
    · exact .inl old
    cases same
    refine .inr ⟨isIn, rfl, rfl, .inl ?_⟩
    simp [unwalked]
  | zero _ _ _ _ _ _ how =>
    rcases before_concat.mp order with old | ⟨isIn, same⟩
    · exact .inl old
    · cases same
      exact .inr ⟨isIn, rfl, rfl, .inr ⟨rfl, how⟩⟩
  | expire | enlist | take => exact .inl (order.of_append (by simp))

theorem released_after {k : CallId} {result : WaitResult} {flags : Flags}
    (isIn : .released c k result flags ∈ s'.log) : .released c k result flags ∈ s.log ∨
      (∃ walk, s.frames k = .walk walk .walking ∧ c ∈ taken s walk) ∨
      (c = k ∧ s.frames c = .idle) := by
  cases change with
  | immediate _ _ _ _ here =>
    simp only [record_log, setFrame_log, append_assoc,
      mem_append, mem_cons, not_mem_nil, or_false] at isIn
    rcases isIn with old | differs | same
    · exact .inl old
    · cases differs
    · cases same
      exact .inr (.inr ⟨rfl, here⟩)
  | take _ _ walk here =>
    rcases mem_append.mp isIn with old | isNew
    · exact .inl old
    obtain ⟨_, isTaken, same⟩ := mem_map.mp isNew
    cases same
    exact .inr (.inl ⟨walk, here, isTaken⟩)
  | expire | enlist | mutate | zero =>
    refine .inl ?_
    simpa using isIn

end

end Inversion

/-- The condition on a step: no wait joins the list, and none leaves it by its
timeout or by a cancelling walk, while a set, clear or pulse whose flags match
it has not finished its walk; and the flags are not set to zero without a walk
under a waiter that zero matches. -/
structure Unhurried (s : State) (label : Label) : Prop where
  newcomer :
    ∀ call pattern mode timeoutMs, label = .wait call pattern mode timeoutMs → s.group.used = true →
    s.group.poisoned = false → patternMatch s.group.flags pattern mode = false →
    ∀ k snapshot, unwalked (s.frames k) = some snapshot → patternMatch snapshot pattern mode = false
  timeout : ∀ call armed record timeoutMs verdict,
    label = .go call armed → s.frames call = .waiting record timeoutMs verdict .expiring →
    record.signaled = false → ∀ k snapshot, unwalked (s.frames k) = some snapshot →
      patternMatch snapshot record.pattern record.mode = false
  cancel : ∀ call armed walk, label = .go call armed → s.frames call = .walk walk .walking →
    walk.cancelAll = true → ∀ c ∈ taken s walk, ∀ record timeoutMs verdict point,
      s.frames c = .waiting record timeoutMs verdict point → ∀ k snapshot, unwalked
      (s.frames k) = some snapshot → patternMatch snapshot record.pattern record.mode = false
  zero : zeroes s label = true → ∀ c ∈ s.group.waiters,
    ∀ record timeoutMs verdict point, s.frames c = .waiting record timeoutMs verdict point →
      patternMatch 0 record.pattern record.mode = false

/-- The flags a wait reports were shown after it registered and before it was
released, by the call that released it; or the group had them when the wait
registered, and it was released at once. -/
def Reported (log : List Event) (call : CallId) (pattern : Flags) (mode : Nat)
    (flags : Flags) : Prop :=
  (∃ waker left, [.registered call pattern mode, .mutated waker flags left,
    .released call waker .ok flags].Sublist log) ∨
  ∃ before after, log = before ++ .registered call pattern mode ::
    .released call call .ok flags :: after ∧ current before = flags

theorem Reported.append {log : List Event} {call : CallId} {flags : Flags}
    (reported : Reported log call pattern mode flags) (more : List Event) :
    Reported (log ++ more) call pattern mode flags := by
  rcases reported with ⟨waker, left, order⟩ | ⟨before, after, parts, had⟩
  · exact .inl ⟨waker, left, order.trans (sublist_append_left log more)⟩
  · exact .inr ⟨before, after ++ more, by simp [parts], had⟩

theorem log_grows {s s' : State} {label : Label} (change : Logged s label s') :
    ∃ events, s'.log = s.log ++ events := by
  cases change with
  | immediate => exact ⟨_, append_assoc _ _ _⟩
  | expire | enlist | mutate | zero | take => exact ⟨_, rfl⟩

/-- Every walk that is ahead was made ready after the waiters it matches had
registered. -/
def Due (s : State) : Prop :=
  ∀ c record timeoutMs verdict point k snapshot, c ∈ s.group.waiters →
    s.frames c = .waiting record timeoutMs verdict point → unwalked (s.frames k) = some snapshot →
    patternMatch snapshot record.pattern record.mode = true →
    ∃ left, Before s.log (.registered c record.pattern record.mode) (.mutated k snapshot left)

theorem Due.quiet {s s' : State} (due : Due s) (quiet : Quiet s s') : Due s' := by
  intro c record timeoutMs verdict point k snapshot listed here ahead fits
  have shift := quiet.frames c
  rw [here] at shift
  obtain ⟨record', timeoutMs', verdict', point', before, same, -⟩ := shift.record
  rw [(quiet.frames k).unwalked] at ahead
  rw [quiet.waiters] at listed
  rw [same] at fits ⊢
  rw [quiet.log]
  exact due c record' timeoutMs' verdict' point' k snapshot listed before ahead fits

theorem Due.logged {s s' : State} {label : Label} (due : Due s) (traced : Traced s)
    (unhurried : Unhurried s label) (change : Logged s label s') : Due s' := by
  intro c record timeoutMs verdict point k snapshot listed here ahead fits
  obtain ⟨events, log⟩ := log_grows change
  rcases listed_before change traced.orderly listed with
    ⟨wasListed, same⟩ | ⟨pattern, mode, timeoutMs', isWait, -, ⟨used, clean⟩, differs, isNew⟩
  · rw [same] at here
    rcases ahead_before change ahead with wasAhead | ⟨op, bits, left, -, -, log'⟩
    · obtain ⟨left, order⟩ := due c record timeoutMs verdict point k snapshot
        wasListed here wasAhead fits
      exact ⟨left, by rw [log]; exact order.append events⟩
    · refine ⟨left, ?_⟩
      rw [log']
      exact Before.concat (traced.joined c record timeoutMs verdict point here) (by simp)
  · -- a wait that has just joined is matched by no walk that is ahead
    rw [isNew] at here
    cases here
    rcases ahead_before change ahead with wasAhead | ⟨op, bits, left, isMutate, -⟩
    · have unmatched := unhurried.newcomer c pattern mode _ isWait used clean
        differs k snapshot wasAhead
      rw [fits] at unmatched
      cases unmatched
    · rw [isWait] at isMutate
      cases isMutate

/-- A wait that is marked with `WAIT_OK`, or has returned it, has flags to
report. -/
structure Reports (s : State) : Prop where
  marked : ∀ c record timeoutMs verdict point,
    s.frames c = .waiting record timeoutMs verdict point → record.signaled = true →
    record.result = .ok → patternMatch record.resultFlags record.pattern record.mode = true ∧
      Reported s.log c record.pattern record.mode record.resultFlags
  answered : ∀ c out, s.frames c = .waited .ok out → ∃ flags pattern mode,
    out = some flags ∧ patternMatch flags pattern mode = true ∧ Reported s.log c pattern mode flags

theorem Reports.quiet {s s' : State} (reports : Reports s) (quiet : Quiet s s') : Reports s' where
  marked := by
    intro c record timeoutMs verdict point here decided ok
    have shift := quiet.frames c
    rw [here] at shift
    obtain ⟨record', timeoutMs', verdict', point', before, same, -⟩ := shift.record
    rw [same] at decided ok ⊢
    rw [quiet.log]
    exact reports.marked c record' timeoutMs' verdict' point' before decided ok
  answered := by
    intro c out here
    have shift := quiet.frames c
    rw [here] at shift
    rw [quiet.log]
    rcases shift.answered with before | ⟨record, timeoutMs, verdict, point,
      before, decided, ok, value⟩
    · exact reports.answered c out before
    · exact ⟨record.resultFlags, record.pattern, record.mode, value,
        reports.marked c record timeoutMs verdict point before decided ok⟩

theorem Reports.update {s : State} (reports : Reports s) {group : Group}
    {call : CallId} {frame : Frame} {events : List Event}
    (marked : ∀ record timeoutMs verdict point, frame = .waiting record timeoutMs verdict point →
      record.signaled = false) (answered : ∀ out, frame = .waited .ok out →
    ∃ flags pattern mode, out = some flags ∧ patternMatch flags pattern mode = true ∧
        Reported (s.log ++ events) call pattern mode flags) :
    Reports ⟨group, Function.update s.frames call frame, s.log ++ events⟩ where
  marked := by
    intro c record timeoutMs verdict point here decided ok
    change Function.update s.frames call frame c = _ at here
    by_cases same : c = call
    · rw [same, update_self] at here
      exact Bool.noConfusion ((marked record timeoutMs verdict point here).symm.trans decided)
    · rw [update_of_ne same] at here
      exact (reports.marked c record timeoutMs verdict point here decided
        ok).imp_right fun reported => reported.append events
  answered := by
    intro c out here
    change Function.update s.frames call frame c = _ at here
    by_cases same : c = call
    · rw [same, update_self] at here
      rw [same]
      exact answered out here
    · rw [update_of_ne same] at here
      obtain ⟨flags, pattern, mode, value, fits, reported⟩ := reports.answered c out here
      exact ⟨flags, pattern, mode, value, fits, reported.append events⟩

theorem Reports.logged {s s' : State} {label : Label} (reports : Reports s) (traced : Traced s)
    (due : Due s) (change : Logged s label s') : Reports s' := by
  cases change with
  | expire _ _ _ _ _ _ undecided =>
    refine reports.update ?_ (by simp)
    rintro _ _ _ _ ⟨⟩
    exact undecided
  | immediate _ call pattern mode _ fits =>
    have log : s.log ++ [.registered call pattern mode] ++ [.released call call .ok s.group.flags] =
        s.log ++ [.registered call pattern mode, .released call call .ok s.group.flags] := by simp
    rw [State.record, State.record]
    simp only [setFrame_log, setFrame_group, setFrame_frames, log]
    refine reports.update (by simp) ?_
    rintro _ ⟨⟩
    exact ⟨s.group.flags, pattern, mode, rfl, fits, .inr ⟨s.log, [], rfl, traced.flags.symm⟩⟩
  | enlist =>
    refine reports.update ?_ (by simp)
    rintro _ _ _ _ ⟨⟩
    rfl
  | mutate | zero => exact reports.update (by simp) (by simp)
  | take _ call walk here =>
    constructor
    · intro c record timeoutMs verdict point after decided ok
      obtain ⟨record', before, ⟨-, rfl⟩ | ⟨isTaken, rfl⟩⟩ := takeBatch_waiting after
      · exact (reports.marked c record timeoutMs verdict point before decided
          ok).imp_right fun reported => reported.append _
      -- the walk that releases it is one that was due
      have keeps : walk.cancelAll = false := by
        cases cancels : walk.cancelAll with
        | false => rfl
        | true => simp [Walk.decision, cancels] at ok
      have fits : patternMatch walk.snapshot record'.pattern record'.mode = true := by
        have wanted := taken_wants isTaken
        rw [before] at wanted
        simpa [Walk.wants, keeps] using wanted
      obtain ⟨left, order⟩ := due c record' timeoutMs verdict point call walk.snapshot
        (mem_waiters.mpr (.inl isTaken)) before (by rw [here]; simp [unwalked, keeps]) fits
      refine ⟨fits, .inl ⟨call, left, ?_⟩⟩
      refine order.follow (mem_map.mpr ⟨c, isTaken, ?_⟩)
      simp [Walk.decision, keeps]
    · intro c out after
      by_cases same : c = call
      · rw [same, takeBatch_self] at after
        cases after
      have before : s.frames c = .waited .ok out := by
        rw [takeBatch_other s walk same] at after
        split at after
        · cases frame : s.frames c <;> rw [frame] at after <;> first | exact after | cases after
        · exact after
      obtain ⟨flags, pattern, mode, value, fits, reported⟩ := reports.answered c out before
      exact ⟨flags, pattern, mode, value, fits, reported.append _⟩

/-- After the change of the flags by `k`, the wait was released with flags that
its waker showed and that match it; the waker is `k` or another set, clear or
pulse that walked first. -/
def Freed (log : List Event) (c : CallId) (pattern : Flags) (mode : Nat)
    (k : CallId) (shown left : Flags) : Prop :=
  ∃ waker flags left', Before log (.mutated k shown left) (.released c waker .ok flags) ∧
    Before log (.mutated waker flags left') (.released c waker .ok flags) ∧
    patternMatch flags pattern mode = true ∧ (waker = k → flags = shown)

theorem Freed.append {log : List Event} {k : CallId} {shown left : Flags}
    (freed : Freed log c pattern mode k shown left) (more : List Event) :
    Freed (log ++ more) c pattern mode k shown left := by
  obtain ⟨waker, flags, left', after, showed, fits, own⟩ := freed
  exact ⟨waker, flags, left', after.append more, showed.append more, fits, own⟩

/-- A wait that registered before a change of the flags that matches it: while
it is listed the walk is ahead, and afterwards it was freed, or it had been
decided or had given up before the change. -/
structure Releases (s : State) : Prop where
  ahead : ∀ c pattern mode k shown left, Before s.log
    (.registered c pattern mode) (.mutated k shown left) → patternMatch shown pattern mode = true →
    c ∈ s.group.waiters → unwalked (s.frames k) = some shown
  fate : ∀ c pattern mode k shown left, Before s.log
    (.registered c pattern mode) (.mutated k shown left) → patternMatch shown pattern mode = true →
    c ∈ s.group.waiters ∨ Freed s.log c pattern mode k shown left ∨
    (∃ waker result flags, Before s.log (.released c waker result flags) (.mutated k shown left)) ∨
    Before s.log (.expired c) (.mutated k shown left)

theorem Releases.quiet {s s' : State} (releases : Releases s)
    (quiet : Quiet s s') : Releases s' where
  ahead := by
    intro c pattern mode k shown left order fits listed
    rw [quiet.log] at order
    rw [quiet.waiters] at listed
    rw [(quiet.frames k).unwalked]
    exact releases.ahead c pattern mode k shown left order fits listed
  fate := by
    intro c pattern mode k shown left order fits
    rw [quiet.log] at order ⊢
    rw [quiet.waiters]
    exact releases.fate c pattern mode k shown left order fits

theorem listed_record {s : State} (traced : Traced s)
    (listed : c ∈ s.group.waiters) (isIn : .registered c pattern mode ∈ s.log) :
    ∃ record timeoutMs verdict point, s.frames c = .waiting record timeoutMs verdict point ∧
      record.pattern = pattern ∧ record.mode = mode := by
  have pending := traced.orderly.pending c listed
  have shown := traced.witnessed _ isIn
  simp only [subject] at shown
  cases frame : s.frames c with
  | waiting record timeoutMs verdict point =>
    rw [frame] at shown
    exact ⟨record, timeoutMs, verdict, point, rfl, shown⟩
  | idle | waited | walk | returned =>
    rw [frame] at pending
    exact pending.elim

theorem registered_listed {s s' : State} {label : Label} (traced : Traced s)
    (change : Logged s label s') (listed : c ∈ s'.group.waiters)
    (isIn : .registered c pattern mode ∈ s.log) :
    c ∈ s.group.waiters ∧ s'.frames c = s.frames c := by
  rcases listed_before change traced.orderly listed with old | ⟨_, _, _, _, idle, _⟩
  · exact old
  have shown := traced.witnessed _ isIn
  simp only [subject, idle] at shown
  exact (Shows.began shown).elim

/-- The walk that takes a wait for which another walk is ahead frees it. -/
theorem Releases.freed {s s' : State} {k call : CallId} {shown left : Flags} {walk : Walk}
    {armed : Bool} (releases : Releases s) (traced : Traced s) (due : Due s)
    (unhurried : Unhurried s (.go call armed))
    (order : Before s.log (.registered c pattern mode) (.mutated k shown left))
    (fits : patternMatch shown pattern mode = true) (here : s.frames call = .walk walk .walking)
    (isTaken : c ∈ taken s walk) (log : s'.log = s.log ++ (taken s walk).map fun c =>
      .released c call walk.decision walk.snapshot) : Freed s'.log c pattern mode k shown left := by
  have listed : c ∈ s.group.waiters := mem_waiters.mpr (.inl isTaken)
  have ahead := releases.ahead c pattern mode k shown left order fits listed
  obtain ⟨record, timeoutMs, verdict, point, waits, rfl, rfl⟩ :=
    listed_record traced listed order.mem.1
  -- a walk that cancels does not overtake the change
  have keeps : walk.cancelAll = false := by
    cases cancels : walk.cancelAll with
    | false => rfl
    | true =>
      have unmatched := unhurried.cancel call armed walk rfl here cancels c isTaken
        record timeoutMs verdict point waits k shown ahead
      rw [fits] at unmatched
      cases unmatched
  have own : unwalked (s.frames call) = some walk.snapshot := by
    simp [here, unwalked, keeps]
  have matches_ : patternMatch walk.snapshot record.pattern record.mode = true := by
    have wanted := taken_wants isTaken
    rw [waits] at wanted
    simpa [Walk.wants, keeps] using wanted
  obtain ⟨left', showed⟩ := due c record timeoutMs verdict point call walk.snapshot listed
    waits own matches_
  have isNew : Event.released c call .ok walk.snapshot ∈ (taken s walk).map fun c =>
      .released c call walk.decision walk.snapshot :=
    mem_map.mpr ⟨c, isTaken, by simp [Walk.decision, keeps]⟩
  rw [log]
  refine ⟨call, walk.snapshot, left', Before.concat order.mem.2 isNew,
    Before.concat showed.mem.2 isNew, matches_, ?_⟩
  rintro rfl
  exact Option.some.inj (own.symm.trans ahead)

theorem Releases.logged {s s' : State} {label : Label} (releases : Releases s) (traced : Traced s)
    (due : Due s) (unhurried : Unhurried s label) (change : Logged s label s') : Releases s' where
  ahead := by
    intro c pattern mode k shown left order fits listed
    rcases mutated_after change order with old | ⟨isIn, same, -, walks | ⟨rfl, zero⟩⟩
    · obtain ⟨wasListed, -⟩ := registered_listed traced change listed old.mem.1
      rcases ahead_after change (releases.ahead c pattern mode k shown left old fits wasListed) with
        still | dry
      · exact still
      obtain ⟨record, timeoutMs, verdict, point, here, rfl, rfl⟩ :=
        listed_record traced wasListed old.mem.1
      have unmatched := dry c listed record timeoutMs verdict point here
      rw [fits] at unmatched
      cases unmatched
    · exact walks
    · -- flags that went to zero match no waiter
      rw [same] at listed
      obtain ⟨record, timeoutMs, verdict, point, here, rfl, rfl⟩ := listed_record traced listed isIn
      have unmatched := unhurried.zero zero c listed record timeoutMs verdict point here
      rw [fits] at unmatched
      cases unmatched
  fate := by
    intro c pattern mode k shown left order fits
    obtain ⟨events, log⟩ := log_grows change
    rcases mutated_after change order with old | ⟨isIn, same, log', -⟩
    · rcases releases.fate c pattern mode k shown left old fits with
        listed | freed | ⟨waker, result, flags, decided⟩ | expired
      · rcases listed_after change listed with
          still | ⟨armed, call, walk, rfl, here, isTaken, log'⟩ |
            ⟨armed, record, timeoutMs, verdict, isGo, here, undecided⟩
        · exact .inl still
        · exact .inr (.inl (releases.freed traced due unhurried old fits here isTaken log'))
        -- its timeout does not cut in before the walk
        obtain ⟨_, _, _, _, here', rfl, rfl⟩ :=
          listed_record traced listed old.mem.1
        rw [here] at here'
        cases here'
        have unmatched := unhurried.timeout c armed record timeoutMs verdict
          isGo here undecided k shown (releases.ahead c _ _ k shown left old fits listed)
        rw [fits] at unmatched
        cases unmatched
      · rw [log]
        exact .inr (.inl (freed.append events))
      · rw [log]
        exact .inr (.inr (.inl ⟨waker, result, flags, decided.append events⟩))
      · rw [log]
        exact .inr (.inr (.inr (expired.append events)))
    · rw [same, log']
      rcases traced.ended c pattern mode isIn with
        listed | ⟨waker, result, flags, released⟩ | expired
      · exact .inl listed
      · exact .inr (.inr (.inl ⟨waker, result, flags, Before.concat released (by simp)⟩))
      · exact .inr (.inr (.inr (Before.concat expired (by simp))))

/-- A wait that registered after a change of the flags: the walk of that change
does not want it, and does not release it. -/
structure Newcomers (s : State) : Prop where
  unmatched : ∀ c pattern mode k shown left snapshot,
    Before s.log (.mutated k shown left) (.registered c pattern mode) → c ∈ s.group.waiters →
    unwalked (s.frames k) = some snapshot → patternMatch snapshot pattern mode = false
  spared : ∀ c pattern mode k shown left result flags, Before s.log
    (.mutated k shown left) (.registered c pattern mode) → .released c k result flags ∉ s.log

theorem Newcomers.quiet {s s' : State} (newcomers : Newcomers s)
    (quiet : Quiet s s') : Newcomers s' where
  unmatched := by
    intro c pattern mode k shown left snapshot order listed ahead
    rw [quiet.log] at order
    rw [quiet.waiters] at listed
    rw [(quiet.frames k).unwalked] at ahead
    exact newcomers.unmatched c pattern mode k shown left snapshot order listed ahead
  spared := by
    intro c pattern mode k shown left result flags order
    rw [quiet.log] at order ⊢
    exact newcomers.spared c pattern mode k shown left result flags order

theorem not_idle {s : State} (traced : Traced s) {event : Event}
    (isIn : event ∈ s.log) : s.frames (subject event) ≠ .idle := by
  intro idle
  have shown := traced.witnessed event isIn
  rw [idle] at shown
  exact Shows.began shown

theorem Newcomers.logged {s s' : State} {label : Label} (newcomers : Newcomers s)
    (traced : Traced s) (unhurried : Unhurried s label) (change : Logged s label s') :
    Newcomers s' where
  unmatched := by
    intro c pattern mode k shown left snapshot order listed ahead
    rcases ahead_before change ahead with wasAhead | ⟨op, bits, left', isMutate, idle, -⟩
    · rcases registered_after change order with old | ⟨isIn, idle, timeoutMs, isWait⟩
      · obtain ⟨wasListed, -⟩ := registered_listed traced change listed old.mem.2
        exact newcomers.unmatched c pattern mode k shown left snapshot old wasListed wasAhead
      rcases listed_before change traced.orderly listed with
        ⟨wasListed, -⟩ | ⟨pattern', mode', _, isWait', -, ⟨used, clean⟩, differs, -⟩
      · exact (traced.orderly.unlisted idle id wasListed).elim
      rw [isWait] at isWait'
      cases isWait'
      exact unhurried.newcomer c pattern mode timeoutMs isWait used clean
        differs k snapshot wasAhead
    · rcases registered_after change order with old | ⟨isIn, -⟩
      · exact (not_idle traced old.mem.1 idle).elim
      · exact (not_idle traced isIn idle).elim
  spared := by
    intro c pattern mode k shown left result flags order released
    rcases registered_after change order with old | ⟨isIn, idle, -⟩
    · rcases released_after change released with
        before | ⟨walk, here, isTaken⟩ | ⟨rfl, idle⟩
      · exact newcomers.spared c pattern mode k shown left result flags old before
      · -- the walk is that of the change itself, and it does not want the wait
        have keeps : walk.cancelAll = false := by
          have cancels := traced.witnessed _ old.mem.1
          simp only [subject, here] at cancels
          exact cancels
        have listed : c ∈ s.group.waiters := mem_waiters.mpr (.inl isTaken)
        obtain ⟨_, _, _, _, frame, rfl, rfl⟩ :=
          listed_record traced listed old.mem.2
        have unmatched := newcomers.unmatched c _ _ k shown left walk.snapshot
          old listed (by rw [here]; simp [unwalked, keeps])
        have wanted := taken_wants isTaken
        rw [frame] at wanted
        simp [Walk.wants, keeps, unmatched] at wanted
      · exact not_idle traced old.mem.2 idle
    · rcases released_after change released with
        before | ⟨walk, here, isTaken⟩ | ⟨rfl, -⟩
      · exact not_idle traced before idle
      · exact traced.orderly.unlisted idle id (mem_waiters.mpr (.inl isTaken))
      · exact not_idle traced isIn idle

/-- The thread of the wait is off the processor, in the wait queue of its
record. -/
def Asleep : Frame → Prop
  | .waiting record _ _ point => record.queued = true ∧ point = .asleep
  | _ => False

/-- A wait that has been released sleeps on only while the call that released it
still has its record to wake. -/
def Woken (s : State) : Prop :=
  ∀ c waker result flags, .released c waker result flags ∈ s.log →
    Asleep (s.frames c) → c ∈ (s.frames waker).batch

section Wakes

variable {s s' : State}

/-- One call moves on: it is not put to sleep once it is released, and nobody
who sleeps drops out of its batch. -/
theorem Woken.move (woken : Woken s) {group : Group} {call : CallId} {frame : Frame}
    {log : List Event}
    (awake : Asleep frame → ∀ waker result flags, .released call waker result flags ∉ log)
    (held : ∀ c ∈ (s.frames call).batch, Asleep (s.frames c) → c ∈ frame.batch)
    (old : ∀ c waker result flags, c ≠ call → .released c waker result flags ∈ log →
      .released c waker result flags ∈ s.log) : Woken ⟨group, update s.frames call frame, log⟩ := by
  intro c waker result flags isIn asleep
  change Asleep (update s.frames call frame c) at asleep
  show c ∈ (update s.frames call frame waker).batch
  by_cases same : c = call
  · rw [same, update_self] at asleep
    exact (awake asleep waker result flags (same ▸ isIn)).elim
  rw [update_of_ne same] at asleep
  have isHeld := woken c waker result flags (old c waker result flags same isIn) asleep
  by_cases walker : waker = call
  · rw [walker, update_self]
    exact held c (walker ▸ isHeld) asleep
  · rw [update_of_ne walker]
    exact isHeld

theorem Woken.take (woken : Woken s) (traced : Traced s) {call : CallId} {walk : Walk}
    (here : s.frames call = .walk walk .walking) : Woken (takeBatch s call walk) := by
  intro c waker result flags isIn asleep
  by_cases same : c = call
  · rw [same, takeBatch_self] at asleep
    exact asleep.elim
  rcases mem_append.mp isIn with old | isNew
  · -- a wait released before is decided, so this walk does not take it
    have notTaken : c ∉ taken s walk := by
      intro isTaken
      have pending := traced.orderly.pending c (mem_waiters.mpr (.inl isTaken))
      have shown := traced.witnessed _ old
      simp only [subject] at shown
      cases frame : s.frames c with
      | waiting =>
        rw [frame] at shown pending
        exact Bool.noConfusion (pending.1.symm.trans shown.1)
      | idle | waited | walk | returned =>
        rw [frame] at pending
        exact pending
    rw [takeBatch_other s walk same, if_neg notTaken] at asleep
    have isHeld := woken c waker result flags old asleep
    by_cases walker : waker = call
    · rw [walker, here] at isHeld
      cases isHeld
    · rw [takeBatch_other s walk walker]
      split
      · cases frame : s.frames waker <;> rw [frame] at isHeld <;> exact isHeld
      · exact isHeld
  · obtain ⟨_, isTaken, released⟩ := mem_map.mp isNew
    cases released
    rw [takeBatch_self]
    exact isTaken

theorem wake_awake (frame : Frame) : ¬ Asleep frame.wake := by
  intro asleep
  cases frame with
  | waiting => exact Bool.noConfusion asleep.1
  | idle | waited | walk | returned => exact asleep

theorem Woken.effect {label : Label} (woken : Woken s) (traced : Traced s)
    (effect : Effect s label s') : Woken s' := by
  have empty {call : CallId} {frame : Frame} (frame' : Frame) (here : s.frames call = frame)
      (none_ : frame.batch = []) :
      ∀ c ∈ (s.frames call).batch, Asleep (s.frames c) → c ∈ frame'.batch := by
    intro c isHeld
    rw [here, none_] at isHeld
    cases isHeld
  cases effect with
  | logged _ _ change =>
    cases change with
    | take _ call walk here => exact woken.take traced here
    | expire _ call _ _ _ here | enlist call _ _ _ here =>
      exact woken.move (by simp [Asleep]) (empty _ here rfl) (by simp)
    | immediate _ call _ _ here =>
      refine woken.move (by simp [Asleep]) (empty _ here rfl) ?_
      intro c waker result flags other isIn
      simpa [State.record, other] using isIn
    | mutate call _ _ here => exact woken.move (by simp [Asleep]) (empty _ here rfl) (by simp)
    | zero _ call _ _ _ here =>
      rcases here with here | ⟨walk, here⟩ <;>
        exact woken.move (by simp [Asleep]) (empty _ here rfl) (by simp)
  | rest _ call record _ _ _ _ _ _ here _ _ stays =>
    refine woken.move ?_ (empty _ here rfl) (fun _ _ _ _ _ isIn => isIn)
    rintro ⟨queued, isAsleep⟩ waker result flags isIn
    have shown := traced.witnessed _ isIn
    simp only [subject, here] at shown
    rcases stays isAsleep with undecided | unqueued
    · exact Bool.noConfusion (undecided.symm.trans shown.1)
    · exact Bool.noConfusion (unqueued.symm.trans queued)
  | wake _ call walk c batch _ here =>
    have first : Woken (s.setFrame c (s.frames c).wake) := by
      refine woken.move (fun asleep => (wake_awake _ asleep).elim) ?_ (fun _ _ _ _ _ isIn => isIn)
      intro d isHeld _
      cases frame : s.frames c <;> rw [frame] at isHeld <;> exact isHeld
    refine first.move (by simp [Asleep]) ?_ (fun _ _ _ _ _ isIn => isIn)
    intro d isHeld asleep
    have other : d ≠ c := by
      rintro rfl
      rw [setFrame_frames, update_self] at asleep
      exact wake_awake _ asleep
    have wasHeld : d ∈ c :: batch := by
      by_cases walker : call = c
      · rw [setFrame_frames, walker, update_self, ← walker, here] at isHeld
        exact isHeld
      · rw [setFrame_frames, update_of_ne walker, here] at isHeld
        exact isHeld
    exact (mem_cons.mp wasHeld).resolve_left other
  | refuse _ call _ here ends =>
    refine woken.move ?_ (empty _ here rfl) (fun _ _ _ _ _ isIn => isIn)
    rcases ends with ⟨code, rfl⟩ | ⟨result, flags, rfl, -⟩ <;> simp [Asleep]
  | done _ call walk _ here ends =>
    refine woken.move ?_ (empty _ here rfl) (fun _ _ _ _ _ isIn => isIn)
    rcases ends with rfl | rfl <;> simp [Asleep]
  | answer | giveUp | poison | read | again =>
    exact woken.move (by simp [Asleep]) (empty _ ‹_› rfl) (fun _ _ _ _ _ isIn => isIn)

end Wakes

/-- What holds of a run in which no step is hurried. -/
structure Exact (s : State) : Prop where
  traced : Traced s
  due : Due s
  reports : Reports s
  releases : Releases s
  newcomers : Newcomers s
  woken : Woken s

theorem Exact.created (owner : Nat) : Exact (created owner) where
  traced := Traced.created owner
  due := fun _ _ _ _ _ _ _ listed => by cases listed
  reports := by
    constructor
    · intro c record timeoutMs verdict point here
      cases here
    · intro c out here
      cases here
  releases := by
    constructor
    · intro c pattern mode k shown left order
      cases order
    · intro c pattern mode k shown left order
      cases order
  newcomers := by
    constructor
    · intro c pattern mode k shown left snapshot order
      cases order
    · intro c pattern mode k shown left result flags order
      cases order
  woken := fun _ _ _ _ isIn => by cases isIn

theorem Exact.step {s s' : State} {label : Label} (holds : Exact s)
    (taken : Guarded step Unhurried s label s') : Exact s' := by
  have effect := exec_effect taken.1
  have traced := holds.traced.effect effect
  have woken := holds.woken.effect holds.traced effect
  rcases holds.traced.quiet_or effect with quiet | change
  · exact ⟨traced, holds.due.quiet quiet, holds.reports.quiet quiet,
      holds.releases.quiet quiet, holds.newcomers.quiet quiet, woken⟩
  · exact ⟨traced, holds.due.logged holds.traced taken.2 change,
      holds.reports.logged holds.traced holds.due change,
      holds.releases.logged holds.traced holds.due taken.2 change,
      holds.newcomers.logged holds.traced taken.2 change, woken⟩

/-- Wakes are exact: a wait that returned `WAIT_OK` reports flags that match its
pattern and that the group had or showed between its registration and its
release; when a call that changed the flags has returned, every wait that had
registered before the change, that was neither decided nor given up by then and
that matches the flags it showed was released with `WAIT_OK` by that call, with
these flags, and does not sleep, or by another set, clear or pulse that matches
it and walked first; a released wait has the result of its release and sleeps
only while its waker has its record to wake; and a wait that registered after
the change was not released by it. -/
structure WakeExact (s : State) : Prop where
  flags : s.group.flags = current s.log
  reports : ∀ c out, s.frames c = .waited .ok out → ∃ flags pattern mode,
    out = some flags ∧ patternMatch flags pattern mode = true ∧ Reported s.log c pattern mode flags
  released : ∀ c pattern mode k shown left code, Before s.log (.registered c pattern mode)
    (.mutated k shown left) → patternMatch shown pattern mode = true → s.frames k = .returned code →
    (Before s.log (.mutated k shown left) (.released c k .ok shown) ∧ ¬ Asleep (s.frames c)) ∨
    (∃ waker flags left', waker ≠ k ∧ patternMatch flags pattern mode = true ∧
      Before s.log (.mutated k shown left) (.released c waker .ok flags) ∧
      Before s.log (.mutated waker flags left') (.released c waker .ok flags)) ∨
    (∃ waker result flags, Before s.log (.released c waker result flags) (.mutated k shown left)) ∨
    Before s.log (.expired c) (.mutated k shown left)
  decided : ∀ c waker result flags, .released c waker result flags ∈ s.log →
    Shows (.released c waker result flags) (s.frames c) ∧
      (Asleep (s.frames c) → c ∈ (s.frames waker).batch)
  newcomers : ∀ c pattern mode k shown left result flags, Before s.log
    (.mutated k shown left) (.registered c pattern mode) → .released c k result flags ∉ s.log

/-- In every run on an event group in which no wait joins, times out or is
cancelled while a set, clear or pulse that matches it has not finished its walk,
and no flags go to zero under a waiter that zero matches, wakes are exact. -/
theorem event_wakes {owner : Nat} {labels : List Label} {s : State}
    (run : Steps (Guarded step Unhurried) (created owner) labels s) : WakeExact s := by
  have holds : Exact s := run.invariant
    (fun _ _ _ before taken => before.step taken) (Exact.created owner)
  refine ⟨holds.traced.flags, holds.reports.answered, ?_, ?_, holds.newcomers.spared⟩
  · intro c pattern mode k shown left code order fits returned
    rcases holds.releases.fate c pattern mode k shown left order fits with
      listed | ⟨waker, flags, left', after, showed, matches_, own⟩ | earlier
    · have ahead := holds.releases.ahead c pattern mode k shown left order fits listed
      rw [returned] at ahead
      cases ahead
    · by_cases same : waker = k
      · rw [same, own same] at after
        refine .inl ⟨after, fun asleep => ?_⟩
        have isHeld := holds.woken c k .ok shown after.mem.2 asleep
        rw [returned] at isHeld
        cases isHeld
      · exact .inr (.inl ⟨waker, flags, left', same, matches_, after, showed⟩)
    · exact .inr (.inr earlier)
  · intro c waker result flags isIn
    exact ⟨holds.traced.witnessed _ isIn, holds.woken c waker result flags isIn⟩

/-- Steps that the condition says nothing about. -/
def calm (s : State) : Label → Bool
  | .wait .. | .reset _ | .create .. => false
  | .go call _ =>
    match s.frames call with
    | .waiting _ _ _ .expiring => false
    | .walk walk .walking => !walk.cancelAll
    | .walk _ .closing => false
    | _ => true
  | _ => true

theorem calm_sound {s : State} {label : Label} (passed : calm s label = true) :
    Unhurried s label where
  newcomer := by
    rintro call pattern mode timeoutMs rfl
    cases passed
  timeout := by
    rintro call armed record timeoutMs verdict rfl here
    simp [calm, here] at passed
  cancel := by
    rintro call armed walk rfl here cancels
    simp [calm, here, cancels] at passed
  zero := by
    intro zero
    cases label with
    | go =>
      simp only [zeroes] at zero
      split at zero
      case h_1 walk here => simp [calm, here] at passed
      case h_2 => cases zero
    | reset | create => cases passed
    | destroy | mutate | poison | wait | fire | stray => cases zero

/-- After the first section of a wait for the lowest bit: a set of that bit, its
walk and its wake, and the rest of the wait. -/
def setAndTaken : List Label :=
  [.mutate 1 .set 1, .go 1 true, .go 1 true, .go 1 true, .go 0 true, .go 0 true]

/-- A wait that a set releases. -/
theorem event_wakes_setAndTaken :
    ∃ s, Steps (Guarded step Unhurried) (created 7) (.wait 0 1 1 0 :: setAndTaken) s ∧
      s.frames 0 = .waited .ok (some 1) ∧ s.frames 1 = .returned 0 ∧ WakeExact s := by
  have followed : (followRun (checked exec calm) (eventGroupWait (created 7) 0 1 1 0)
      setAndTaken).map (fun s => (s.frames 0, s.frames 1)) =
      some (.waited .ok (some 1), .returned 0) := by
    decide +kernel
  obtain ⟨s, later, seen⟩ := Steps.guarded_of_followed calm_sound followed
  simp only [Prod.mk.injEq] at seen
  have first : Guarded step Unhurried (created 7) (.wait 0 1 1 0)
      (eventGroupWait (created 7) 0 1 1 0) := by
    refine ⟨rfl, ?_, by simp, by simp, by simp [zeroes]⟩
    intro call pattern mode timeoutMs _ _ _ _ k snapshot ahead
    cases ahead
  have run := Steps.cons first later
  exact ⟨s, run, seen.1, seen.2, event_wakes run⟩

/-- A pulse, a wait that registers before its walk, and the walk. -/
def latecomer : List Label :=
  [.mutate 0 .pulse 1, .wait 1 1 1 0, .go 0 true, .go 1 true, .go 1 true]

/-- The wait registers after the pulse and is released by it. -/
theorem event_wakes_newcomer : ∃ s, Steps step (created 7) latecomer s ∧
      s.frames 1 = .waited .ok (some 1) ∧ ¬ WakeExact s := by
  have followed : (followRun exec (created 7) latecomer).map (fun s => (s.frames 1, s.log)) =
      some (.waited .ok (some 1), [.mutated 0 1 0, .registered 1 1 1, .released 1 0 .ok 1]) := by
    decide +kernel
  obtain ⟨s, run, seen⟩ := Steps.of_followed followed
  simp only [Prod.mk.injEq] at seen
  refine ⟨s, run, seen.1, fun holds => ?_⟩
  refine holds.newcomers 1 1 1 0 1 0 .ok 1 ?_ ?_
  · rw [seen.2, Before]
    decide
  · rw [seen.2]
    decide

end MainDob.Proofs.EventGroupWakes
