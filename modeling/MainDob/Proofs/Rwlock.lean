/-
Purpose: The reader-writer lock keeps writers apart from everybody, and never
  leaves a thread asleep on a free lock.
Main exports: Lists, Counted, rwlock_contract
-/
import MainDob.Kernel.Rwlock

namespace MainDob.Proofs.Rwlock

open Lib Kernel.Rwlock
open List Option Function

/-! ## Lists of the threads in one phase -/

/-- `list` names each thread in the phase `wanted` once, and nobody else. -/
def Lists (phase : Tid → Phase) (wanted : Phase) (list : List Tid) : Prop :=
  list.Nodup ∧ ∀ t, t ∈ list ↔ phase t = wanted

namespace Lists

variable {phase : Tid → Phase} {wanted new : Phase} {list rest : List Tid} {t : Tid}

section

variable (lists : Lists phase wanted list)
include lists

theorem stay (was : phase t ≠ wanted)
    (now : new ≠ wanted) : Lists (Function.update phase t new) wanted list := by
  refine ⟨lists.1, fun other => ?_⟩
  by_cases same : other = t
  · subst same
    rw [update_self, lists.2]
    exact ⟨fun h => absurd h was, fun h => absurd h now⟩
  · rw [update_of_ne same, lists.2]

theorem enter (was : phase t ≠ wanted) :
    Lists (Function.update phase t wanted) wanted (list ++ [t]) := by
  have absent : t ∉ list := fun member => was ((lists.2 t).mp member)
  refine ⟨?_, fun other => ?_⟩
  · refine nodup_append.mpr ⟨lists.1, pairwise_singleton _ t, ?_⟩
    intro one isOne two isTwo same
    rw [same, mem_singleton.mp isTwo] at isOne
    exact absent isOne
  · by_cases same : other = t
    · subst same
      simp
    · rw [update_of_ne same, ← lists.2, mem_append, mem_singleton]
      exact ⟨fun h => h.resolve_right same, .inl⟩

theorem leave (now : new ≠ wanted) : Lists (Function.update phase t new) wanted (list.erase t) := by
  refine ⟨lists.1.erase t, fun other => ?_⟩
  rw [lists.1.mem_erase_iff]
  by_cases same : other = t
  · subst same
    rw [update_self]
    exact ⟨fun h => absurd rfl h.1, fun h => absurd h now⟩
  · rw [update_of_ne same, lists.2]
    exact ⟨And.right, fun h => ⟨same, h⟩⟩

end

theorem leaveFirst (lists : Lists phase wanted (t :: rest)) (now : new ≠ wanted) :
    Lists (Function.update phase t new) wanted rest := by
  have left := lists.leave (t := t) now
  rwa [erase_cons_head] at left

end Lists

/-! ## The invariant -/

/-- The counters say who is inside and who waits. -/
structure Counted (s : State) : Prop where
  alone : s.insideWrite.length ≤ 1
  apart : s.insideWrite ≠ [] → s.insideRead = []
  readers : s.readers =
    if s.insideWrite = [] then (s.insideRead.length : Int) else -1
  reads : Lists s.phase .sleepRead s.readWaiters
  writes : Lists s.phase .sleepWrite s.writeWaiters
  waiting : ∃ awake, Lists s.phase .awakeWrite awake ∧
    s.writersWaiting = (s.writeWaiters.length + awake.length : Nat)

/-- Somebody is in the phase. -/
def Somebody (s : State) (phase : Phase) : Prop := ∃ t, s.phase t = phase

/-- A writer that was woken and has not yet tried again. -/
def WriterAwake (s : State) : Prop := Somebody s .awakeWrite ∨ Somebody s .retryWrite

/-- Whoever sleeps is somebody's business: a sleeping writer that of the readers
inside or of a writer on its way, a sleeping reader that of a writer. -/
structure Attended (s : State) : Prop where
  writers : s.writeWaiters ≠ [] → s.readers ≠ 0 ∨ WriterAwake s ∨ Somebody s .wakeWriter
  readers : s.readWaiters ≠ [] →
    s.insideWrite ≠ [] ∨ s.writeWaiters ≠ [] ∨ WriterAwake s ∨ Somebody s .wakeReaders

namespace Counted

variable {s : State} {t : Tid}

theorem readers_eq_zero (counted : Counted s) :
    s.readers = 0 ↔ s.insideWrite = [] ∧ s.insideRead = [] := by
  rw [counted.readers]
  split
  case isTrue free => simp [free]
  case isFalse held => simp [held]

theorem readers_nonneg (counted : Counted s) : 0 ≤ s.readers ↔ s.insideWrite = [] := by
  rw [counted.readers]
  split
  case isTrue free => simp [free]
  case isFalse held => simp [held]

theorem waiting_ne_zero (counted : Counted s) :
    s.writersWaiting ≠ 0 ↔ s.writeWaiters ≠ [] ∨ Somebody s .awakeWrite := by
  obtain ⟨awake, lists, total⟩ := counted.waiting
  have someAwake : Somebody s .awakeWrite ↔ awake ≠ [] := by
    constructor
    · rintro ⟨t, there⟩ empty
      have member := (lists.2 t).mpr there
      rw [empty] at member
      exact not_mem_nil member
    · intro nonempty
      obtain ⟨t, member⟩ := exists_mem_of_ne_nil awake nonempty
      exact ⟨t, (lists.2 t).mp member⟩
  rw [someAwake, total, ← length_pos_iff, ← length_pos_iff]
  omega

end Counted

/-! ## What a step can do -/

/-- The steps of the lock, with where the thread was before. -/
inductive Move (s : State) : State → Prop where
  | readLock {t : Tid} (was : s.phase t = .idle ∨ s.phase t = .awakeRead) :
      Move s (readLock s t)
  | readUnlock {t : Tid} (was : s.phase t = .idle) (holds : t ∈ s.insideRead) :
      Move s (readUnlock s t)
  | writeLock {t : Tid} (was : s.phase t = .idle ∨ s.phase t = .retryWrite) :
      Move s (writeLock s t)
  | writeUnlock {t : Tid} (was : s.phase t = .idle)
      (holds : t ∈ s.insideWrite) : Move s (writeUnlock s t)
  | retry {t : Tid} (was : s.phase t = .awakeWrite) :
      Move s ({ s with writersWaiting := s.writersWaiting - 1 }.setPhase t
        .retryWrite)
  | wakeOne {t : Tid} (was : s.phase t = .wakeWriter) : Move s (wakeOne s t)
  | wakeAll {t : Tid} (was : s.phase t = .wakeReaders) : Move s (wakeAll s t)

theorem step_move {s s' : State} {label : Label} (taken : step s label s') : Move s s' := by
  cases label with
  | readLock =>
    obtain ⟨idle, same⟩ := ite_none_right_eq_some.mp taken
    cases same
    exact .readLock (.inl idle)
  | readUnlock =>
    obtain ⟨⟨idle, holds⟩, same⟩ := ite_none_right_eq_some.mp taken
    cases same
    exact .readUnlock idle holds
  | writeLock =>
    obtain ⟨idle, same⟩ := ite_none_right_eq_some.mp taken
    cases same
    exact .writeLock (.inl idle)
  | writeUnlock =>
    obtain ⟨⟨idle, holds⟩, same⟩ := ite_none_right_eq_some.mp taken
    cases same
    exact .writeUnlock idle holds
  | go =>
    simp only [step, exec, goOn] at taken
    split at taken
    case h_1 => cases taken
    case h_2 => cases taken
    case h_3 => cases taken
    case h_4 was => cases taken; exact .readLock (.inr was)
    case h_5 was => cases taken; exact .retry was
    case h_6 was => cases taken; exact .writeLock (.inr was)
    case h_7 was => cases taken; exact .wakeOne was
    case h_8 was => cases taken; exact .wakeAll was

namespace Counted

variable {s : State} {t : Tid}

section

variable (counted : Counted s)
include counted

theorem lists_stay {new : Phase} (was : s.phase t ≠ .sleepRead ∧ s.phase t ≠ .sleepWrite ∧
    s.phase t ≠ .awakeWrite) (now : new ≠ .sleepRead ∧ new ≠ .sleepWrite ∧ new ≠ .awakeWrite) :
    Lists (Function.update s.phase t new) .sleepRead s.readWaiters ∧
    Lists (Function.update s.phase t new) .sleepWrite s.writeWaiters ∧
    ∃ awake, Lists (Function.update s.phase t new) .awakeWrite awake ∧
      s.writersWaiting = (s.writeWaiters.length + awake.length : Nat) := by
  obtain ⟨awake, lists, total⟩ := counted.waiting
  exact ⟨counted.reads.stay was.1 now.1, counted.writes.stay was.2.1 now.2.1,
    awake, lists.stay was.2.2 now.2.2, total⟩

theorem readLock (was : s.phase t = .idle ∨ s.phase t = .awakeRead) : Counted (readLock s t) := by
  have quiet : s.phase t ≠ .sleepRead ∧ s.phase t ≠ .sleepWrite ∧ s.phase t ≠ .awakeWrite := by
    rcases was with idle | awake
    · simp [idle]
    · simp [awake]
  unfold Kernel.Rwlock.readLock
  split
  case isTrue free =>
      have nobody := counted.readers_nonneg.mp free.1
      obtain ⟨reads, writes, waiting⟩ := @Counted.lists_stay s t counted .idle quiet (by decide)
      refine ⟨counted.alone, fun held => absurd nobody held, ?_, reads, writes, waiting⟩
      rw [counted.readers]
      simp [State.setPhase, nobody]
  case isFalse =>
      obtain ⟨awake, lists, total⟩ := counted.waiting
      exact ⟨counted.alone, counted.apart, counted.readers, counted.reads.enter quiet.1,
        counted.writes.stay quiet.2.1 (by decide), awake, lists.stay quiet.2.2 (by decide), total⟩

theorem readUnlock (was : s.phase t = .idle)
    (holds : t ∈ s.insideRead) : Counted (readUnlock s t) := by
  have nobody : s.insideWrite = [] := by
    by_contra held
    rw [counted.apart held] at holds
    exact not_mem_nil holds
  obtain ⟨reads, writes, waiting⟩ := @Counted.lists_stay s t counted
    (if s.readers - 1 = 0 ∧ s.writersWaiting ≠ 0 then .wakeWriter
      else .idle) (by simp [was]) (by split <;> decide)
  refine ⟨counted.alone, fun held => absurd nobody held, ?_, reads, writes, waiting⟩
  change s.readers - 1 = _
  have some := length_pos_of_mem holds
  rw [counted.readers]
  simp only [Kernel.Rwlock.readUnlock, State.setPhase, nobody, if_true, length_erase_of_mem holds]
  omega

theorem writeLock (was : s.phase t = .idle ∨ s.phase t = .retryWrite) :
    Counted (writeLock s t) := by
  have quiet : s.phase t ≠ .sleepRead ∧ s.phase t ≠ .sleepWrite ∧ s.phase t ≠ .awakeWrite := by
    rcases was with idle | retry
    · simp [idle]
    · simp [retry]
  unfold Kernel.Rwlock.writeLock
  split
  case isTrue free =>
      obtain ⟨noWriter, noReader⟩ := counted.readers_eq_zero.mp free
      obtain ⟨reads, writes, waiting⟩ := @Counted.lists_stay s t counted .idle quiet (by decide)
      refine ⟨?_, fun _ => noReader, ?_, reads, writes, waiting⟩
      · simp [State.setPhase, noWriter]
      · simp [State.setPhase]
  case isFalse =>
      obtain ⟨awake, lists, total⟩ := counted.waiting
      refine ⟨counted.alone, counted.apart, counted.readers, counted.reads.stay quiet.1 (by decide),
        counted.writes.enter quiet.2.1, awake, lists.stay quiet.2.2 (by decide), ?_⟩
      simp only [State.setPhase, total, length_append, length_singleton]
      omega

theorem writeUnlock (was : s.phase t = .idle)
    (holds : t ∈ s.insideWrite) : Counted (writeUnlock s t) := by
  have only : s.insideWrite = [t] := by
    have short := counted.alone
    match list : s.insideWrite, holds, short with
    | [one], isOne, _ => rw [mem_singleton.mp isOne]
  have noReader := counted.apart (by simp [only])
  obtain ⟨reads, writes, waiting⟩ := @Counted.lists_stay s t counted
    (if s.writersWaiting ≠ 0 then .wakeWriter else .wakeReaders)
    (by simp [was]) (by split <;> decide)
  refine ⟨?_, fun _ => noReader, ?_, reads, writes, waiting⟩
  · simp [Kernel.Rwlock.writeUnlock, State.setPhase, only]
  · simp [Kernel.Rwlock.writeUnlock, State.setPhase, only, noReader]

theorem retry (was : s.phase t = .awakeWrite) :
    Counted ({ s with writersWaiting := s.writersWaiting - 1 }.setPhase t .retryWrite) := by
  obtain ⟨awake, lists, total⟩ := counted.waiting
  refine ⟨counted.alone, counted.apart, counted.readers,
    counted.reads.stay (by simp [was]) (by decide),
    counted.writes.stay (by simp [was]) (by decide), awake.erase t, lists.leave (by decide), ?_⟩
  have listed := (lists.2 t).mpr was
  have some := length_pos_of_mem listed
  simp only [State.setPhase, total, length_erase_of_mem listed]
  omega

theorem wakeOne (was : s.phase t = .wakeWriter) : Counted (wakeOne s t) := by
  unfold Kernel.Rwlock.wakeOne
  split
  case h_1 =>
      obtain ⟨reads, writes, waiting⟩ :=
        @Counted.lists_stay s t counted .idle (by simp [was]) (by decide)
      exact ⟨counted.alone, counted.apart, counted.readers, reads, writes, waiting⟩
  case h_2 first rest queue =>
      obtain ⟨awake, lists, total⟩ := counted.waiting
      have writes := counted.writes
      rw [queue] at writes total
      have asleep : s.phase first = .sleepWrite := (writes.2 first).mp mem_cons_self
      have other : t ≠ first := by
        rintro rfl
        rw [was] at asleep
        cases asleep
      have moved : Function.update s.phase first .awakeWrite t = .wakeWriter := by
        rw [update_of_ne other, was]
      refine ⟨counted.alone, counted.apart, counted.readers, ?_, ?_, awake ++ [first], ?_, ?_⟩
      · exact (counted.reads.stay (by simp [asleep]) (by decide)).stay (by simp [moved]) (by decide)
      · exact (writes.leaveFirst (by decide)).stay (by simp [moved]) (by decide)
      · exact (lists.enter (by simp [asleep])).stay (by simp [moved]) (by decide)
      · simp only [State.setPhase, total, length_append, length_cons, length_nil]
        omega

theorem wakeAll (was : s.phase t = .wakeReaders) : Counted (wakeAll s t) := by
  have woken : ∀ wanted list, wanted ≠ .sleepRead → wanted ≠ .awakeRead →
      Lists s.phase wanted list → Lists (fun other =>
        if other ∈ s.readWaiters then .awakeRead else s.phase other) wanted
          list := by
    intro wanted list notAsleep notAwake lists
    refine ⟨lists.1, fun other => ?_⟩
    dsimp only
    split
    case isTrue member =>
        rw [lists.2, (counted.reads.2 other).mp member]
        exact ⟨fun h => absurd h.symm notAsleep, fun h => absurd h.symm notAwake⟩
    case isFalse => exact lists.2 other
  have absent : t ∉ s.readWaiters := by
    intro member
    have asleep := (counted.reads.2 t).mp member
    rw [was] at asleep
    cases asleep
  obtain ⟨awake, lists, total⟩ := counted.waiting
  refine ⟨counted.alone, counted.apart, counted.readers, ?_, ?_, awake, ?_, total⟩
  · refine @Lists.stay _ _ _ [] _ ⟨nodup_nil, fun other => ?_⟩ ?_ (by decide)
    · by_cases member : other ∈ s.readWaiters
      · simp [member]
      · simpa [member] using fun h => member ((counted.reads.2 other).mpr h)
    · simp [absent, was]
  · exact (woken _ _ (by decide) (by decide) counted.writes).stay
      (by simp [absent, was]) (by decide)
  · exact (woken _ _ (by decide) (by decide) lists).stay (by simp [absent, was]) (by decide)

theorem move {s' : State} (taken : Move s s') : Counted s' := by
  cases taken with
  | readLock was => exact counted.readLock was
  | readUnlock was holds => exact counted.readUnlock was holds
  | writeLock was => exact counted.writeLock was
  | writeUnlock was holds => exact counted.writeUnlock was holds
  | retry was => exact counted.retry was
  | wakeOne was => exact counted.wakeOne was
  | wakeAll was => exact counted.wakeAll was

end

end Counted

/-! ## Nobody is forgotten -/

namespace Somebody

variable {s : State} {t : Tid} {wanted : Phase}

theorem stay (there : Somebody s wanted) {s' : State} {new : Phase} (was : s.phase t ≠ wanted)
    (moved : s'.phase = Function.update s.phase t new) : Somebody s' wanted := by
  obtain ⟨other, isThere⟩ := there
  refine ⟨other, ?_⟩
  have different : other ≠ t := by
    rintro rfl
    exact was isThere
  rw [moved, update_of_ne different, isThere]

theorem enter {s' : State} (moved : s'.phase = Function.update s.phase t wanted) :
    Somebody s' wanted :=
  ⟨t, by rw [moved, update_self]⟩

end Somebody

theorem WriterAwake.stay {s s' : State} {t : Tid} {new : Phase} (awake : WriterAwake s)
    (was : s.phase t ≠ .awakeWrite ∧ s.phase t ≠ .retryWrite)
    (moved : s'.phase = Function.update s.phase t new) : WriterAwake s' :=
  awake.imp (fun h => h.stay was.1 moved) (fun h => h.stay was.2 moved)

namespace Attended

variable {s : State} {t : Tid}

theorem readLock (attended : Attended s) (counted : Counted s)
    (was : s.phase t = .idle ∨ s.phase t = .awakeRead) : Attended (readLock s t) := by
  have quiet : (s.phase t ≠ .awakeWrite ∧ s.phase t ≠ .retryWrite) ∧
      s.phase t ≠ .wakeWriter ∧ s.phase t ≠ .wakeReaders := by
    rcases was with idle | awake
    · simp [idle]
    · simp [awake]
  unfold Kernel.Rwlock.readLock
  split
  case isTrue free =>
      refine ⟨fun _ => .inl ?_, fun asleep => ?_⟩
      · change s.readers + 1 ≠ 0
        omega
      rcases attended.readers asleep with held | queued | awake | waking
      · exact .inl held
      · exact .inr (.inl queued)
      · exact .inr (.inr (.inl (awake.stay quiet.1 rfl)))
      · exact .inr (.inr (.inr (waking.stay quiet.2.2 rfl)))
  case isFalse busy =>
      refine ⟨fun asleep => ?_, fun _ => ?_⟩
      · rcases attended.writers asleep with held | awake | waking
        · exact .inl held
        · exact .inr (.inl (awake.stay quiet.1 rfl))
        · exact .inr (.inr (waking.stay quiet.2.1 rfl))
      · -- a writer is inside, or one waits: that is why the reader sleeps
        by_cases free : 0 ≤ s.readers
        · have waits : s.writersWaiting ≠ 0 := fun none => busy ⟨free, none⟩
          rcases counted.waiting_ne_zero.mp waits with queued | awake
          · exact .inr (.inl queued)
          · exact .inr (.inr (.inl (.inl (awake.stay quiet.1.1 rfl))))
        · exact .inl fun nobody => free (counted.readers_nonneg.mpr nobody)

theorem readUnlock (attended : Attended s) (counted : Counted s)
    (was : s.phase t = .idle) : Attended (readUnlock s t) := by
  refine ⟨fun asleep => ?_, fun asleep => ?_⟩
  · -- the last reader out finds the sleeping writer counted, and wakes it
    by_cases last : s.readers - 1 = 0
    · have waits := counted.waiting_ne_zero.mpr (.inl asleep)
      refine .inr (.inr (Somebody.enter (s := s) (t := t) ?_))
      simp [Kernel.Rwlock.readUnlock, State.setPhase, last, waits]
    · exact .inl last
  · rcases attended.readers asleep with held | queued | awake | waking
    · exact .inl held
    · exact .inr (.inl queued)
    · exact .inr (.inr (.inl (awake.stay (t := t) (by simp [was]) rfl)))
    · exact .inr (.inr (.inr (waking.stay (t := t) (by simp [was]) rfl)))

theorem writeLock (s : State) (t : Tid) : Attended (writeLock s t) := by
  unfold Kernel.Rwlock.writeLock
  split
  case isTrue =>
      refine ⟨fun _ => .inl ?_, fun _ => .inl ?_⟩
      · simp [State.setPhase]
      · simp [State.setPhase]
  case isFalse busy =>
      refine ⟨fun _ => .inl busy, fun _ => .inr (.inl ?_)⟩
      simp [State.setPhase]

theorem writeUnlock (counted : Counted s) (was : s.phase t = .idle) :
    Attended (writeUnlock s t) := by
  by_cases waits : s.writersWaiting = 0
  · -- no writer is counted, so none sleeps, and the readers are woken
    refine ⟨fun asleep => ?_, fun _ => .inr (.inr (.inr ?_))⟩
    · exact absurd waits (counted.waiting_ne_zero.mpr (.inl asleep))
    · refine Somebody.enter (s := s) (t := t) ?_
      simp [Kernel.Rwlock.writeUnlock, State.setPhase, waits]
  · refine ⟨fun _ => .inr (.inr ?_), fun _ => ?_⟩
    · refine Somebody.enter (s := s) (t := t) ?_
      simp [Kernel.Rwlock.writeUnlock, State.setPhase, waits]
    · rcases counted.waiting_ne_zero.mp waits with queued | awake
      · exact .inr (.inl queued)
      · exact .inr (.inr (.inl (.inl (awake.stay (t := t) (by simp [was]) rfl))))

theorem retry (s : State) (t : Tid) :
    Attended ({ s with writersWaiting := s.writersWaiting - 1 }.setPhase t .retryWrite) := by
  have retries : Somebody ({ s with writersWaiting := s.writersWaiting - 1 }.setPhase t .retryWrite)
      .retryWrite := Somebody.enter (s := s) (t := t) rfl
  exact ⟨fun _ => .inr (.inl (.inr retries)), fun _ => .inr (.inr (.inl (.inr retries)))⟩

theorem wakeOne (attended : Attended s) (counted : Counted s)
    (was : s.phase t = .wakeWriter) : Attended (wakeOne s t) := by
  unfold Kernel.Rwlock.wakeOne
  split
  case h_1 empty =>
      refine ⟨fun asleep => absurd empty asleep, fun asleep => ?_⟩
      rcases attended.readers asleep with held | queued | awake | waking
      · exact .inl held
      · exact absurd empty queued
      · exact .inr (.inr (.inl (awake.stay (t := t) (by simp [was]) rfl)))
      · exact .inr (.inr (.inr (waking.stay (t := t) (by simp [was]) rfl)))
  case h_2 first rest queue =>
      have asleep : s.phase first = .sleepWrite := (counted.writes.2 first).mp (by simp [queue])
      have other : first ≠ t := by
        rintro rfl
        rw [was] at asleep
        cases asleep
      have awake : Somebody (({ s with writeWaiters := rest }.setPhase first
          .awakeWrite).setPhase t .idle) .awakeWrite := by
        refine ⟨first, ?_⟩
        simp [State.setPhase, update_of_ne other]
      exact ⟨fun _ => .inr (.inl (.inl awake)), fun _ => .inr (.inr (.inl (.inl awake)))⟩

theorem wakeAll (attended : Attended s) (counted : Counted s)
    (was : s.phase t = .wakeReaders) : Attended (wakeAll s t) := by
  -- only sleeping readers change their phase, and the waker's own
  have kept : ∀ wanted, wanted ≠ .sleepRead → wanted ≠ .wakeReaders →
      Somebody s wanted → Somebody (Kernel.Rwlock.wakeAll s t) wanted := by
    rintro _ notAsleep notWaking ⟨other, there⟩
    have absent : other ∉ s.readWaiters := fun member =>
      notAsleep (there.symm.trans ((counted.reads.2 other).mp member))
    have different : other ≠ t := by
      rintro rfl
      exact notWaking (there.symm.trans was)
    refine ⟨other, ?_⟩
    simp [Kernel.Rwlock.wakeAll, update_of_ne different, absent, there]
  refine ⟨fun asleep => ?_, fun asleep => absurd rfl asleep⟩
  rcases attended.writers asleep with held | awake | waking
  · exact .inl held
  · exact .inr (.inl (awake.imp (kept _ (by decide) (by decide)) (kept _ (by decide) (by decide))))
  · exact .inr (.inr (kept _ (by decide) (by decide) waking))

theorem move {s' : State} (attended : Attended s) (counted : Counted s)
    (taken : Move s s') : Attended s' := by
  cases taken with
  | readLock was => exact attended.readLock counted was
  | readUnlock was => exact attended.readUnlock counted was
  | writeLock => exact writeLock s _
  | writeUnlock was => exact writeUnlock counted was
  | retry => exact retry s _
  | wakeOne was => exact attended.wakeOne counted was
  | wakeAll was => exact attended.wakeAll counted was

end Attended

/-! ## Whole runs -/

/-- What every reachable state of the lock satisfies. -/
structure Sound (s : State) : Prop where
  counted : Counted s
  attended : Attended s

theorem initial_sound : Sound initial where
  counted := ⟨by decide, fun _ => rfl, rfl, ⟨nodup_nil, by simp [initial]⟩,
    ⟨nodup_nil, by simp [initial]⟩, [],
    ⟨nodup_nil, by simp [initial]⟩, rfl⟩
  attended := ⟨fun asleep => absurd rfl asleep, fun asleep => absurd rfl asleep⟩

theorem Sound.step {s s' : State} {label : Label} (sound : Sound s)
    (taken : Kernel.Rwlock.step s label s') : Sound s' :=
  ⟨sound.counted.move (step_move taken), sound.attended.move sound.counted (step_move taken)⟩

/-- A thread that has nothing left to do before somebody else moves. -/
def Rests (phase : Phase) : Prop :=
  phase = .idle ∨ phase = .sleepRead ∨ phase = .sleepWrite

/-- In every state a run reaches, a writer inside is alone there; and where
nobody is inside and no thread is on its way, nobody sleeps on the lock. -/
theorem rwlock_contract (labels : List Label) (s : State)
    (run : Steps Kernel.Rwlock.step initial labels s) :
    s.insideWrite.length ≤ 1 ∧ (s.insideWrite ≠ [] → s.insideRead = []) ∧ (s.insideWrite = [] →
    s.insideRead = [] → (∀ t, Rests (s.phase t)) → ∀ t, s.phase t = .idle) := by
  have sound : Sound s := run.invariant (fun _ _ _ sound taken => sound.step taken) initial_sound
  refine ⟨sound.counted.alone, sound.counted.apart, fun noWriter noReader rests t => ?_⟩
  have nobody : ∀ wanted, ¬ Rests wanted → ¬ Somebody s wanted := by
    rintro _ moving ⟨other, there⟩
    exact moving (there ▸ rests other)
  have noneAwake : ¬ WriterAwake s :=
    fun awake => awake.elim (nobody _ (by simp [Rests])) (nobody _ (by simp [Rests]))
  have free := sound.counted.readers_eq_zero.mpr ⟨noWriter, noReader⟩
  have noWriteWaiter : s.writeWaiters = [] := by
    by_contra asleep
    rcases sound.attended.writers asleep with held | awake | waking
    · exact held free
    · exact noneAwake awake
    · exact nobody _ (by simp [Rests]) waking
  have noReadWaiter : s.readWaiters = [] := by
    by_contra asleep
    rcases sound.attended.readers asleep with held | queued | awake | waking
    · exact held noWriter
    · exact queued noWriteWaiter
    · exact noneAwake awake
    · exact nobody _ (by simp [Rests]) waking
  rcases rests t with idle | asleep | asleep
  · exact idle
  · have member := (sound.counted.reads.2 t).mpr asleep
    rw [noReadWaiter] at member
    exact absurd member not_mem_nil
  · have member := (sound.counted.writes.2 t).mpr asleep
    rw [noWriteWaiter] at member
    exact absurd member not_mem_nil

/-- A writer waits for a reader, a second reader for the writer, and the writer
gets the lock from the first. -/
def handedOver : List Label :=
  [.readLock 0, .writeLock 1, .readLock 2, .readUnlock 0, .go 0, .go 1, .go 1]

/-- The writer is inside alone, with a reader asleep outside. -/
theorem rwlock_contract_handedOver : ∃ s, Steps Kernel.Rwlock.step initial handedOver s ∧
      s.insideWrite = [1] ∧ s.phase 2 = .sleepRead ∧ s.insideRead = [] := by
  have followed : (followRun exec initial handedOver).map
      (fun s => (s.insideWrite, s.phase 2)) = some ([1], .sleepRead) := by
    decide +kernel
  obtain ⟨s, run, seen⟩ := Steps.of_followed followed
  obtain ⟨inside, asleep⟩ := Prod.mk.injEq _ _ _ _ ▸ seen
  have held : s.insideWrite ≠ [] := by simp [inside]
  exact ⟨s, run, inside, asleep, (rwlock_contract handedOver s run).2.1 held⟩

end MainDob.Proofs.Rwlock
