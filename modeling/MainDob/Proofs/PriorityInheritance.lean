/-
Purpose: Priority inheritance over all interleavings. The bookkeeping of owners and queues is kept
  by every section; on top of it, every waiter is served by the owner, owes it a boost that is
  still to come, or waits on a mutex that is being given away.
Main exports: Tidy, Inheriting, priority_inheritance
-/
import MainDob.Kernel.Mutexes
import MainDob.Lib.Counting

namespace MainDob.Kernel.Mutexes

open Lib
open List Option Function

/-! ### The table -/

variable {table : List (Option Thread)}

section Table

variable {s : State} {t u m n : Nat} {th : Thread}

theorem threadAt_set (table : List (Option Thread)) (here : t < table.length)
    (entry : Option Thread) (u : Nat) :
    threadAt (table.set t entry) u = if u = t then entry else threadAt table u := by
  simp only [threadAt, getD_eq_getElem?_getD, List.getElem?_set]
  by_cases same : t = u
  · subst same
    simp [here]
  · rw [if_neg same, if_neg (Ne.symm same)]

theorem lt_of_threadAt (found : threadAt table t = some th) : t < table.length := by
  by_contra beyond
  rw [threadAt, getD_eq_getElem?_getD, List.getElem?_eq_none (Nat.le_of_not_lt beyond)] at found
  cases found

@[simp] theorem setThread_mutex : (s.setThread t th).mutex = s.mutex := rfl

@[simp] theorem setMutex_table (mx : Mutex) : (s.setMutex m mx).table = s.table := rfl

@[simp] theorem setMutex_thread (mx : Mutex) :
    (s.setMutex m mx).thread = s.thread := rfl

@[simp] theorem setMutex_self (mx : Mutex) : (s.setMutex m mx).mutex m = mx := update_self ..

theorem setMutex_other (mx : Mutex) (apart : n ≠ m) : (s.setMutex m mx).mutex n = s.mutex n :=
  update_of_ne apart ..

end Table

/-! ### Bookkeeping -/

/-- The phases of a thread in the wait queue of a mutex. -/
def Phase.queuesOn (m : Nat) : Phase → Prop
  | .boosting n _ _ => n = m
  | .waiting n => n = m
  | _ => False

/-- The thread says that it is in the wait queue of the mutex. -/
structure QueuedOn (th : Thread) (m : Nat) : Prop where
  blocked : th.blocked = true
  waitingOn : th.waitingOn = some m
  phase : th.phase.queuesOn m

/-- The priority that a phase has in mind is one, and only the dead are
reaped. -/
def Phase.sound (dead : Bool) : Phase → Prop
  | .registering _ req => req < numPriorities
  | .boosting _ _ req => req < numPriorities
  | .applying _ eff => eff < numPriorities
  | .reaping => dead = true
  | .orphaning _ => dead = true
  | _ => True

/-- The priorities of a thread are priorities, and its phase is sound. -/
structure Sound (th : Thread) : Prop where
  base : th.base < numPriorities
  priority : th.priority < numPriorities
  phase : th.phase.sound th.dead

/-- Owners and owned mutexes agree, and so do queues and threads. -/
structure Tidy (s : State) : Prop where
  length : s.table.length = maxThreads
  owns : ∀ m t, (s.mutex m).owner = some t ↔ ∃ th, s.thread t = some th ∧ m ∈ th.owned
  ownedNodup : ∀ t th, s.thread t = some th → th.owned.Nodup
  queued : ∀ m w, w ∈ (s.mutex m).waiters → ∃ th, s.thread w = some th ∧ QueuedOn th m
  nodup : ∀ m, (s.mutex m).waiters.Nodup
  sound : ∀ t th, s.thread t = some th → Sound th

section Bookkeeping

variable {s s' : State} {t m : Nat} {th th' : Thread}

theorem Phase.releases.not_queuesOn {phase : Phase} (gives : phase.releases m)
    (n : Nat) : ¬ phase.queuesOn n := by
  cases phase <;> simp_all [Phase.queuesOn, Phase.releases]

theorem Tidy.not_queued (tidy : Tidy s) (found : s.thread t = some th)
    (elsewhere : ∀ m, ¬ th.phase.queuesOn m) (m : Nat) : t ∉ (s.mutex m).waiters := by
  intro inside
  obtain ⟨_, same, queued⟩ := tidy.queued m t inside
  cases found.symm.trans same
  exact elsewhere m queued.phase

theorem Tidy.mem_owned (tidy : Tidy s) (found : s.thread t = some th) :
    m ∈ th.owned ↔ (s.mutex m).owner = some t := by
  rw [tidy.owns m t]
  simp [found]

theorem thread_of_table (found : s.thread t = some th) (table : s'.table = s.table.set t (some th'))
    (u : Nat) : s'.thread u = if u = t then some th' else s.thread u := by
  rw [State.thread, table]
  exact threadAt_set _ (lt_of_threadAt found) _ u

section

variable (tidy : Tidy s) (found : s.thread t = some th)
include tidy found

/-- A section that rewrites one thread keeps the lists in step with it. -/
theorem Tidy.update (table : s'.table = s.table.set t (some th'))
    (owns : ∀ n u, (s'.mutex n).owner = some u ↔ if u = t then n ∈ th'.owned else
      (s.mutex n).owner = some u) (distinct : th'.owned.Nodup) (range : Sound th')
    (nodup : ∀ n, (s'.mutex n).waiters.Nodup) (others : ∀ n w, w ∈ (s'.mutex n).waiters → w ≠ t →
    w ∈ (s.mutex n).waiters) (mine : ∀ n, t ∈ (s'.mutex n).waiters → QueuedOn th' n) : Tidy s' := by
  have threads := thread_of_table found table
  constructor
  case length => rw [table, length_set, tidy.length]
  case owns =>
    intro n u
    rw [owns n u, threads u]
    split
    · simp
    · exact tidy.owns n u
  case ownedNodup =>
    intro u other at_
    rw [threads u] at at_
    split at at_
    · cases at_
      exact distinct
    · exact tidy.ownedNodup u other at_
  case queued =>
    intro n w inside
    rw [threads w]
    split
    · rename_i same
      subst same
      exact ⟨th', rfl, mine n inside⟩
    · rename_i apart
      exact tidy.queued n w (others n w inside apart)
  case nodup => exact nodup
  case sound =>
    intro u other at_
    rw [threads u] at at_
    split at at_
    · cases at_
      exact range
    · exact tidy.sound u other at_

theorem Tidy.owns_kept (owner : ∀ n, (s'.mutex n).owner = (s.mutex n).owner)
    (owned : th'.owned = th.owned) (n u : Nat) :
    (s'.mutex n).owner = some u ↔ if u = t then n ∈ th'.owned else (s.mutex n).owner = some u := by
  rw [owner n]
  split
  · rename_i same
    rw [same, owned, tidy.mem_owned found]
  · exact Iff.rfl

theorem Tidy.leave (table : s'.table = s.table.set t (some th'))
    (owner : ∀ n, (s'.mutex n).owner = (s.mutex n).owner)
    (waiters : ∀ n, (s'.mutex n).waiters.Sublist (s.mutex n).waiters) (unqueued : ∀ n, t ∉
    (s'.mutex n).waiters) (owned : th'.owned = th.owned) (sound : Sound th') : Tidy s' := by
  refine tidy.update found table (tidy.owns_kept found owner owned) ?_ sound ?_ ?_ ?_
  · rw [owned]
    exact tidy.ownedNodup t th found
  · exact fun n => (tidy.nodup n).sublist (waiters n)
  · exact fun n w inside _ => (waiters n).subset inside
  · exact fun n inside => absurd inside (unqueued n)

end

end Bookkeeping

/-! ### The invariant -/

/-- Some thread is in the middle of giving the mutex away. -/
def Releasing (s : State) (m : Nat) : Prop :=
  ∃ t th, s.thread t = some th ∧ th.phase.releases m

/-- A thread that has given a mutex away and has not set its priority yet. -/
def Phase.resets : Phase → Prop
  | .releasing _ => True
  | .applying _ _ => True
  | _ => False

/-- Waiters are served by the owner, unless the mutex is being given away, and a
thread without a mutex has its base priority, unless it is about to set it. -/
structure Inheriting (s : State) : Prop where
  tidy : Tidy s
  served : ∀ m o w owner waiter,
    (s.mutex m).owner = some o → w ∈ (s.mutex m).waiters → s.thread o = some owner →
    s.thread w = some waiter → Releasing s m ∨ Served owner.priority m o waiter
  calm : ∀ t th, s.thread t = some th → th.dead = false → th.owned = [] →
    th.phase.resets ∨ th.priority = th.base

variable {entry : Thread}

section Frames

variable {s s' : State} {t m : Nat} {th th' : Thread}

theorem priority_before (found : s.thread t = some th)
    (threads : ∀ u, s'.thread u = if u = t then some th' else s.thread u)
    (priority : th'.priority = th.priority) {u : Nat} (at_ : s'.thread u = some entry) :
    ∃ old, s.thread u = some old ∧ entry.priority = old.priority := by
  rw [threads u] at at_
  split at at_
  · rename_i self
    cases at_
    exact ⟨th, self ▸ found, priority⟩
  · exact ⟨entry, at_, rfl⟩

/-- One thread changes, without a change of its priority, and no thread joins a
queue or takes a mutex. -/
theorem Inheriting.frame (inherits : Inheriting s) (tidy : Tidy s') (found : s.thread t = some th)
    (threads : ∀ u, s'.thread u = if u = t then some th' else s.thread u)
    (priority : th'.priority = th.priority)
    (phase : th'.phase = th.phase ∨ ∀ n, t ∉ (s'.mutex n).waiters)
    (mutexes : ∀ n o w, (s'.mutex n).owner = some o → w ∈ (s'.mutex n).waiters →
      (s.mutex n).owner = some o ∧ w ∈ (s.mutex n).waiters) (still : ∀ n, th.phase.releases n →
    th'.phase.releases n ∨ Releasing s' n ∨ ∀ o w owner waiter, (s'.mutex n).owner = some o →
        w ∈ (s'.mutex n).waiters → s'.thread o = some owner →
        s'.thread w = some waiter → Served owner.priority n o waiter) (calm : th'.dead = false →
    th'.owned = [] → th'.phase.resets ∨ th'.priority = th'.base) : Inheriting s' := by
  -- priorities are as before, and so is the phase of a thread in a queue
  have before : ∀ u entry, s'.thread u = some entry → ∃ old,
      s.thread u = some old ∧ entry.priority = old.priority ∧
        (entry.phase = old.phase ∨ ∀ n, u ∉ (s'.mutex n).waiters) := by
    intro u entry at_
    rw [threads u] at at_
    split at at_
    · rename_i same
      subst same
      cases at_
      exact ⟨th, found, priority, phase⟩
    · exact ⟨entry, at_, rfl, .inl rfl⟩
  refine ⟨tidy, ?_, ?_⟩
  · intro n o w owner waiter owns inside ownerAt waiterAt
    obtain ⟨ownedBefore, insideBefore⟩ := mutexes n o w owns inside
    obtain ⟨oldOwner, oldOwnerAt, ownerPriority, _⟩ := before o owner ownerAt
    obtain ⟨old, oldAt, waiterPriority, samePhase⟩ := before w waiter waiterAt
    rcases inherits.served n o w oldOwner old ownedBefore insideBefore
      oldOwnerAt oldAt with ⟨u, other, at_, releases⟩ | served
    · by_cases same : u = t
      · subst same
        cases found.symm.trans at_
        rcases still n releases with kept | elsewhere | served
        · exact .inl ⟨u, th', by rw [threads u, if_pos rfl], kept⟩
        · exact .inl elsewhere
        · exact .inr (served o w owner waiter owns inside ownerAt waiterAt)
      · refine .inl ⟨u, other, ?_, releases⟩
        rw [threads u, if_neg same]
        exact at_
    · refine .inr ?_
      rw [Served, ownerPriority, waiterPriority]
      refine served.imp id fun owes => ?_
      rcases samePhase with same | unqueued
      · rw [same]
        exact owes
      · exact absurd inside (unqueued n)
  · intro u entry at_ alive none
    rw [threads u] at at_
    split at at_
    · cases at_
      exact calm alive none
    · exact inherits.calm u entry at_ alive none

end Frames

/-! ### Sections that leave owners and queues alone -/

section Sections

variable {s : State} {t m : Nat} {th : Thread}

variable {s' : State}

/-- A thread that only moves on keeps the inheritance. -/
theorem Inheriting.moveOn {th' : Thread} (inherits : Inheriting s)
    (found : s.thread t = some th) (table : s'.table = s.table.set t (some th'))
    (mutexes : ∀ n, (s'.mutex n).owner = (s.mutex n).owner ∧
      (s'.mutex n).waiters = (s.mutex n).waiters) (owned : th'.owned = th.owned)
    (priority : th'.priority = th.priority) (base : th'.base = th.base) (dead : th'.dead = th.dead)
    (range : th'.phase.sound th'.dead) (unqueued : ∀ n, t ∉ (s.mutex n).waiters)
    (releases : ∀ n, th.phase.releases n → th'.phase.releases n)
    (resets : th.phase.resets → th'.phase.resets) : Inheriting s' := by
  have before := inherits.tidy.sound t th found
  have ranges : Sound th' := ⟨base ▸ before.base, priority ▸ before.priority, range⟩
  have unqueued' : ∀ n, t ∉ (s'.mutex n).waiters := by
    intro n
    rw [(mutexes n).2]
    exact unqueued n
  have tidy : Tidy s' := inherits.tidy.leave found table (fun n => (mutexes n).1)
    (fun n => (mutexes n).2 ▸ .refl _) unqueued' owned ranges
  refine inherits.frame tidy found (thread_of_table found table) priority
    (.inr unqueued') ?_ (fun n was => .inl (releases n was)) ?_
  · intro n o w owns inside
    rw [(mutexes n).1] at owns
    rw [(mutexes n).2] at inside
    exact ⟨owns, inside⟩
  · intro alive none
    rw [priority, base]
    exact (inherits.calm t th found (dead ▸ alive) (owned ▸ none)).imp resets id

theorem Inheriting.contend (inherits : Inheriting s) (found : s.thread t = some th)
    (free : th.phase = .idle ∨ th.phase = .retrying m) :
    Inheriting ((s.setMutex m { s.mutex m with guard := true }).setThread t
      { th with phase := .registering m th.priority }) := by
  refine inherits.moveOn found rfl ?_ rfl rfl rfl rfl (inherits.tidy.sound t th found).priority
    (inherits.tidy.not_queued found ?_) ?_ ?_
  · intro n
    by_cases same : n = m
    · subst same
      simp
    · simp [setMutex_other _ same]
  all_goals rcases free with phase | phase
  all_goals simp [phase, Phase.queuesOn, Phase.releases, Phase.resets]

theorem Inheriting.resume (inherits : Inheriting s) (found : s.thread t = some th)
    (phase : th.phase = .waiting m) (woken : th.blocked = false) :
    Inheriting (s.setThread t { th with
        waitingOn := none
        waitingOwner := none
        phase := if th.timedOut then .idle else .retrying m }) := by
  refine inherits.moveOn found rfl (fun n => ⟨rfl, rfl⟩) rfl rfl rfl rfl ?_ ?_ ?_ ?_
  · dsimp only
    split <;> trivial
  · intro n inside
    obtain ⟨_, at_, queued⟩ := inherits.tidy.queued n t inside
    cases found.symm.trans at_
    rw [queued.blocked] at woken
    cases woken
  · simp [phase, Phase.releases]
  · simp [phase, Phase.resets]

theorem effectivePriority_le (s : State) (th : Thread) : effectivePriority s th ≤ th.base := by
  have walk : ∀ (owned : List Nat) (start : Nat),
      owned.foldl (fun eff m => min eff (s.mutex m).boostPrio) start ≤ start := by
    intro owned
    induction owned with
    | nil => exact fun _ => le_refl _
    | cons _ _ ih => exact fun start => le_trans (ih _) (min_le_left ..)
  exact walk th.owned th.base

theorem Inheriting.recompute (inherits : Inheriting s)
    (found : s.thread t = some th) (phase : th.phase = .releasing m) :
    Inheriting (s.setThread t { th with phase := .applying m (effectivePriority s th) }) := by
  refine inherits.moveOn found rfl (fun n => ⟨rfl, rfl⟩) rfl rfl rfl rfl ?_
    (inherits.tidy.not_queued found ?_) ?_ ?_
  · exact lt_of_le_of_lt (effectivePriority_le s th) (inherits.tidy.sound t th found).base
  · simp [phase, Phase.queuesOn]
  · simp [phase, Phase.releases]
  · simp [phase, Phase.resets]

/-! ### Taking and giving away -/

theorem track_table (room : th.owned.length < maxOwnedMutexes) :
    (s.track m t th).table = s.table.set t (some
      { th with owned := th.owned ++ [m], waitingOn := none, phase := .idle }) := by
  simp [State.track, State.setThread, room]

theorem track_mutex (s : State) (m t n : Nat) (th : Thread) :
    (s.track m t th).mutex n = if n = m then { s.mutex m with owner := some t } else s.mutex n := by
  split
  · rename_i same
    subst same
    exact setMutex_self _
  · rename_i apart
    exact setMutex_other _ apart

/-- Taking a free mutex keeps it if no waiter outranks the new owner. -/
theorem Inheriting.take (inherits : Inheriting s) (found : s.thread t = some th)
    (free : th.phase = .idle ∨ ∃ n, th.phase = .retrying n) (unowned : (s.mutex m).owner = none)
    (room : th.owned.length < maxOwnedMutexes) (urgent : Unsettled s m t ∨
    ServedAll s m (s.mutex m).waiters t th.priority) : Inheriting (s.track m t th) := by
  have table := track_table (s := s) (m := m) (t := t) room
  have threads := thread_of_table found table
  have mutexes := fun n => track_mutex s m t n th
  have before := inherits.tidy.sound t th found
  have unqueued : ∀ n, t ∉ (s.mutex n).waiters := by
    refine inherits.tidy.not_queued found ?_
    rcases free with phase | ⟨n, phase⟩ <;> simp [phase, Phase.queuesOn]
  have waiters : ∀ n, ((s.track m t th).mutex n).waiters = (s.mutex n).waiters := by
    intro n
    rw [mutexes n]
    split
    · rename_i same
      rw [same]
    · rfl
  have absent : m ∉ th.owned := by
    rw [inherits.tidy.mem_owned found, unowned]
    nofun
  have tidy : Tidy (s.track m t th) := by
    refine inherits.tidy.update found table ?_ ?_ ⟨before.base, before.priority, trivial⟩ ?_ ?_ ?_
    · intro n u
      rw [mutexes n]
      have mine := inherits.tidy.mem_owned found (m := n)
      by_cases same : n = m
      · subst same
        by_cases self : u = t
        · simp [self]
        · simp [self, unowned, Ne.symm self]
      · by_cases self : u = t
        · simp [self, same, mine]
        · simp [self, same]
    · exact nodup_append'.mpr ⟨inherits.tidy.ownedNodup t th found,
        nodup_singleton m, by simpa using absent⟩
    · intro n
      rw [waiters n]
      exact inherits.tidy.nodup n
    · intro n w inside _
      rw [waiters n] at inside
      exact inside
    · intro n inside
      rw [waiters n] at inside
      exact absurd inside (unqueued n)
  refine ⟨tidy, ?_, ?_⟩
  · intro n o w owner waiter owns inside ownerAt waiterAt
    rw [waiters n] at inside
    have apart : w ≠ t := fun same => unqueued n (same ▸ inside)
    rw [threads w, if_neg apart] at waiterAt
    have kept : ∀ u entry, u ≠ t → s.thread u = some entry →
        (s.track m t th).thread u = some entry := by
      intro u entry other at_
      rw [threads u, if_neg other]
      exact at_
    by_cases same : n = m
    · subst same
      rw [mutexes n, if_pos rfl] at owns
      cases owns
      rw [threads t, if_pos rfl] at ownerAt
      cases ownerAt
      rcases urgent with ⟨u, entry, other, at_, releases⟩ | served
      · exact .inl ⟨u, entry, kept u entry other at_, releases⟩
      · exact .inr (served w inside waiter waiterAt)
    · rw [mutexes n, if_neg same] at owns
      obtain ⟨entry, entryAt, priority⟩ := priority_before found threads rfl ownerAt
      rw [priority]
      refine (inherits.served n o w entry waiter owns inside entryAt waiterAt).imp ?_ id
      rintro ⟨u, other, at_, releases⟩
      refine ⟨u, other, kept u other ?_ at_, releases⟩
      rintro rfl
      cases found.symm.trans at_
      rcases free with phase | ⟨n, phase⟩ <;>
        simp [phase, Phase.releases] at releases
  · intro u entry at_ alive none
    rw [threads u] at at_
    split at at_
    · cases at_
      simp at none
    · exact inherits.calm u entry at_ alive none

/-- Giving a mutex up takes it off the list of its owner. -/
theorem untrack_spec (inside : m ∈ th.owned) :
    ∃ rest, untrack th m = { th with owned := rest } ∧ (m :: rest).Perm th.owned := by
  have position : ∃ i, th.owned.findIdx? (· == m) = some i := by
    refine isSome_iff_exists.mp ?_
    rw [List.findIdx?_isSome]
    exact any_eq_true.mpr ⟨m, inside, beq_self_eq_true m⟩
  obtain ⟨i, at_⟩ := position
  obtain ⟨bound, hit, _⟩ := List.findIdx?_eq_some_iff_getElem.mp at_
  have filled : th.owned ≠ [] := ne_nil_of_mem inside
  have ends := List.getLast?_eq_some_getLast filled
  refine ⟨(th.owned.set i (th.owned.getLast filled)).dropLast, ?_, ?_⟩
  · simp only [untrack, at_, ends]
  have moved := perm_swap_last bound ends
  rw [beq_iff_eq.mp hit] at moved
  exact moved

variable {rest : List Nat}

/-- Giving a mutex up keeps the inheritance. -/
theorem Inheriting.give {th' : Thread} {mx : Mutex} (inherits : Inheriting s)
    (found : s.thread t = some th) (unqueued : ∀ n, ¬ th.phase.queuesOn n)
    (quiet : ∀ n, ¬ th.phase.releases n) (shorter : (m :: rest).Perm th.owned)
    (owned : th'.owned = rest) (priority : th'.priority = th.priority) (base : th'.base = th.base)
    (range : th'.phase.sound th'.dead) (unowned : mx.owner = none)
    (waiters : mx.waiters = (s.mutex m).waiters) (calm : th'.dead = false → th'.phase.resets) :
    Inheriting ((s.setMutex m mx).setThread t th') := by
  have before := inherits.tidy.sound t th found
  have distinct := shorter.nodup_iff.mpr (inherits.tidy.ownedNodup t th found)
  have owns := (inherits.tidy.mem_owned found).mp (shorter.subset (mem_cons_self ..))
  have notQueued := inherits.tidy.not_queued found unqueued
  have table : ((s.setMutex m mx).setThread t th').table = s.table.set t (some th') := rfl
  have sameWaiters : ∀ n, (((s.setMutex m mx).setThread t th').mutex n).waiters =
      (s.mutex n).waiters := by
    intro n
    by_cases same : n = m
    · subst same
      rw [setThread_mutex, setMutex_self, waiters]
    · rw [setThread_mutex, setMutex_other _ same]
  have tidy : Tidy ((s.setMutex m mx).setThread t th') := by
    refine inherits.tidy.update found table ?_ ?_
      ⟨base ▸ before.base, priority ▸ before.priority, range⟩ ?_ ?_ ?_
    · intro n u
      have mine := inherits.tidy.mem_owned found (m := n)
      rw [setThread_mutex, owned]
      by_cases same : n = m
      · subst same
        rw [setMutex_self, unowned]
        by_cases self : u = t
        · simp [self, (nodup_cons.mp distinct).1]
        · simp [self, owns, Ne.symm self]
      · rw [setMutex_other _ same]
        by_cases self : u = t
        · rw [if_pos self, self, ← mine, ← shorter.mem_iff, mem_cons]
          simp [same]
        · rw [if_neg self]
    · rw [owned]
      exact (nodup_cons.mp distinct).2
    · intro n
      rw [sameWaiters n]
      exact inherits.tidy.nodup n
    · intro n w inside _
      rw [sameWaiters n] at inside
      exact inside
    · intro n inside
      rw [sameWaiters n] at inside
      exact absurd inside (notQueued n)
  refine inherits.frame tidy found (thread_of_table found table) priority
    (.inr fun n inside => notQueued n (sameWaiters n ▸ inside)) ?_
    (fun n was => absurd was (quiet n)) (fun alive _ => .inl (calm alive))
  intro n o w ownedBy inside
  rw [sameWaiters n] at inside
  rw [setThread_mutex] at ownedBy
  by_cases same : n = m
  · subst same
    rw [setMutex_self, unowned] at ownedBy
    cases ownedBy
  · rw [setMutex_other _ same] at ownedBy
    exact ⟨ownedBy, inside⟩

theorem Inheriting.unlock (inherits : Inheriting s) (found : s.thread t = some th)
    (phase : th.phase = .idle) (owns : (s.mutex m).owner = some t) :
    Inheriting ((s.setMutex m { s.mutex m with owner := none, boostPrio := noBoost }).setThread t
      { untrack th m with phase := .releasing m }) := by
  obtain ⟨rest, untracked, shorter⟩ := untrack_spec ((inherits.tidy.mem_owned found).mpr owns)
  rw [untracked]
  refine inherits.give found ?_ ?_ shorter rfl rfl rfl trivial rfl rfl fun _ => trivial
  · simp [phase, Phase.queuesOn]
  · simp [phase, Phase.releases]

/-- Taking a mutex from a dead owner keeps the inheritance. -/
theorem Inheriting.orphan (inherits : Inheriting s) (found : s.thread t = some th)
    (phase : th.phase = .reaping) (last : th.owned.getLast? = some m) :
    Inheriting ((s.setMutex m { s.mutex m with owner := none, boostPrio := noBoost }).setThread t
      { th with owned := th.owned.dropLast, phase := .orphaning m }) := by
  have dead : th.dead = true := by
    simpa only [phase, Phase.sound] using (inherits.tidy.sound t th found).phase
  have shorter : (m :: th.owned.dropLast).Perm th.owned := by
    obtain ⟨_, whole⟩ := List.getLast?_eq_some_iff.mp last
    rw [whole, dropLast_concat]
    exact (perm_append_singleton ..).symm
  refine inherits.give found ?_ ?_ shorter rfl rfl rfl dead rfl rfl ?_
  · simp [phase, Phase.queuesOn]
  · simp [phase, Phase.releases]
  intro alive
  rw [dead] at alive
  cases alive

/-! ### Leaving a queue -/

theorem unqueue_owner (s : State) (m t n : Nat) :
    ((s.unqueue m t).mutex n).owner = (s.mutex n).owner := by
  by_cases same : n = m
  · subst same
    rw [State.unqueue, setMutex_self]
  · rw [State.unqueue, setMutex_other _ same]

theorem unqueue_waiters (s : State) (m t n : Nat) : ((s.unqueue m t).mutex n).waiters =
      if n = m then (s.mutex m).waiters.erase t else (s.mutex n).waiters := by
  by_cases same : n = m
  · subst same
    rw [State.unqueue, setMutex_self, if_pos rfl]
  · rw [State.unqueue, setMutex_other _ same, if_neg same]

theorem mem_of_mem_unqueue {n w : Nat} (inside : w ∈ ((s.unqueue m t).mutex n).waiters) :
    w ∈ (s.mutex n).waiters := by
  rw [unqueue_waiters] at inside
  split at inside
  · rename_i same
    subst same
    exact mem_of_mem_erase inside
  · exact inside

theorem Tidy.unqueued (tidy : Tidy s) (found : s.thread t = some th) (waits : th.waitingOn = some m)
    (n : Nat) : t ∉ ((s.unqueue m t).mutex n).waiters := by
  intro inside
  obtain ⟨_, at_, queued⟩ := tidy.queued n t (mem_of_mem_unqueue inside)
  cases found.symm.trans at_
  cases waits.symm.trans queued.waitingOn
  rw [unqueue_waiters, if_pos rfl] at inside
  exact (tidy.nodup m).not_mem_erase inside

theorem unqueue_sublist (s : State) (m t n : Nat) :
    ((s.unqueue m t).mutex n).waiters.Sublist (s.mutex n).waiters := by
  rw [unqueue_waiters]
  split
  · rename_i same
    subst same
    exact erase_sublist
  · exact List.Sublist.refl _

theorem Tidy.leaveQueue (tidy : Tidy s) (found : s.thread t = some th) :
    (s.leaveQueue t th).table = s.table ∧
      (∀ n, ((s.leaveQueue t th).mutex n).owner = (s.mutex n).owner) ∧
      (∀ n, ((s.leaveQueue t th).mutex n).waiters.Sublist (s.mutex n).waiters) ∧
      ∀ n, t ∉ ((s.leaveQueue t th).mutex n).waiters := by
  unfold State.leaveQueue
  split
  · rename_i m _ waits
    exact ⟨rfl, unqueue_owner s m t, unqueue_sublist s m t, tidy.unqueued found waits⟩
  rename_i elsewhere
  refine ⟨rfl, fun _ => rfl, fun _ => List.Sublist.refl _, ?_⟩
  intro n inside
  obtain ⟨_, at_, queued⟩ := tidy.queued n t inside
  cases found.symm.trans at_
  exact elsewhere n queued.blocked queued.waitingOn

theorem Inheriting.leave (inherits : Inheriting s) (found : s.thread t = some th)
    (waits : th.waitingOn = some m) (timedOut : Bool) :
    Inheriting ((s.unqueue m t).setThread t (th.wake timedOut)) := by
  have before := inherits.tidy.sound t th found
  have unqueued := inherits.tidy.unqueued found waits
  have table : ((s.unqueue m t).setThread t (th.wake timedOut)).table =
      s.table.set t (some (th.wake timedOut)) := rfl
  have tidy : Tidy ((s.unqueue m t).setThread t (th.wake timedOut)) :=
    inherits.tidy.leave found table (unqueue_owner s m t)
      (unqueue_sublist s m t) unqueued rfl { before with }
  refine inherits.frame tidy found (thread_of_table found table) rfl
    (.inl rfl) ?_ (fun n releases => .inl releases) ?_
  · intro n o w owns inside
    exact ⟨unqueue_owner s m t n ▸ owns, mem_of_mem_unqueue inside⟩
  · exact fun alive none => inherits.calm t th found alive none

/-- The death of a thread keeps the inheritance. -/
theorem Inheriting.die (inherits : Inheriting s) (found : s.thread t = some th)
    (owner : ∀ n, (s'.mutex n).owner = (s.mutex n).owner)
    (waiters : ∀ n, (s'.mutex n).waiters.Sublist (s.mutex n).waiters)
    (unqueued : ∀ n, t ∉ (s'.mutex n).waiters) (table : s'.table = s.table.set t (some
      { th with dead := true, blocked := false, phase := .reaping }))
    (left : ∀ m, th.phase.releases m → Unsettled s m t ∨
      ∀ o owner, (s.mutex m).owner = some o → s.thread o = some owner →
        ServedAll s m (s.mutex m).waiters o owner.priority) : Inheriting s' := by
  have before := inherits.tidy.sound t th found
  have threads := thread_of_table found table
  have tidy : Tidy s' := inherits.tidy.leave found table owner waiters unqueued
    rfl ⟨before.base, before.priority, rfl⟩
  refine inherits.frame tidy found threads rfl (.inr unqueued) ?_ ?_ nofun
  · intro n o w owns inside
    exact ⟨owner n ▸ owns, (waiters n).subset inside⟩
  intro n releases
  refine .inr ((left n releases).imp ?_ ?_)
  · rintro ⟨u, entry, other, at_, gives⟩
    exact ⟨u, entry, by rw [threads u, if_neg other]; exact at_, gives⟩
  intro served o w entry waiter owns inside entryAt waiterAt
  have apart : w ≠ t := fun same => unqueued n (same ▸ inside)
  rw [owner n] at owns
  rw [threads w, if_neg apart] at waiterAt
  rw [threads o] at entryAt
  split at entryAt
  · rename_i same
    subst same
    cases entryAt
    exact served o th owns found w ((waiters n).subset inside) waiter waiterAt
  · exact served o entry owns entryAt w ((waiters n).subset inside) waiter waiterAt

/-! ### Waking -/

/-- The front of the queue of a mutex has been woken; `queue` is the rest. -/
structure Woken (s s' : State) (m : Nat) (queue : List Nat) : Prop where
  inherits : Inheriting s'
  owner : ∀ n, (s'.mutex n).owner = (s.mutex n).owner
  waiters : ∀ n, (s'.mutex n).waiters =
    if n = m then queue else (s.mutex n).waiters
  others : ∀ u, u ∉ (s.mutex m).waiters ∨ u ∈ queue → s'.thread u = s.thread u
  priority : ∀ u entry, s'.thread u = some entry →
    ∃ old, s.thread u = some old ∧ entry.priority = old.priority

theorem Inheriting.wokenNone (inherits : Inheriting s)
    (empty : (s.mutex m).waiters = []) : Woken s s m [] where
  inherits := inherits
  owner _ := rfl
  waiters n := by
    split
    · rename_i same
      rw [same, empty]
    · rfl
  others _ _ := rfl
  priority _ entry at_ := ⟨entry, at_, rfl⟩

/-- A wake takes the head off the queue. -/
theorem Inheriting.wakeOne (inherits : Inheriting s) :
    Woken s (s.wakeOne m) m (s.mutex m).waiters.tail := by
  cases queue : (s.mutex m).waiters with
  | nil =>
    have same : s.wakeOne m = s := by simp only [State.wakeOne, queue]
    rw [same]
    exact inherits.wokenNone queue
  | cons head rest =>
    have inside : head ∈ (s.mutex m).waiters := by
      rw [queue]
      exact mem_cons_self ..
    obtain ⟨th, found, queued⟩ := inherits.tidy.queued m head inside
    have shape : s.wakeOne m = (s.unqueue m head).setThread head (th.wake false) := by
      have here : (s.setMutex m { s.mutex m with waiters := rest }).thread head = some th := found
      simp only [State.wakeOne, queue, here, State.unqueue, erase_cons_head]
    have table : ((s.unqueue m head).setThread head (th.wake false)).table =
        s.table.set head (some (th.wake false)) := rfl
    have threads := thread_of_table found table
    have distinct := inherits.tidy.nodup m
    rw [queue] at distinct
    rw [shape]
    constructor
    case inherits => exact inherits.leave found queued.waitingOn false
    case owner => exact unqueue_owner s m head
    case waiters =>
      intro n
      rw [setThread_mutex, unqueue_waiters, queue, erase_cons_head]
      rfl
    case others =>
      intro u apart
      rw [threads u, if_neg]
      rintro rfl
      rcases apart with outside | later
      · exact outside inside
      · exact (nodup_cons.mp distinct).1 later
    case priority =>
      intro u entry at_
      rw [threads u] at at_
      split at at_
      · rename_i same
        cases at_
        exact ⟨th, same ▸ found, rfl⟩
      · exact ⟨entry, at_, rfl⟩

theorem Woken.moveOn {queue : List Nat} {phase : Phase} (woken : Woken s s' m queue)
    (inherits : Inheriting s) (found : s.thread t = some th)
    (gives : ∀ n, th.phase.releases n → n = m) (elsewhere : ∀ n, ¬ th.phase.queuesOn n)
    (sound : phase.sound th.dead)
    (left : Unsettled s m t ∨ ∀ o owner, (s.mutex m).owner = some o → s.thread o = some owner →
        ServedAll s m queue o owner.priority) (part : ∀ u ∈ queue, u ∈ (s.mutex m).waiters)
    (calm : th.dead = false → ¬ th.phase.resets) :
    Inheriting (s'.setThread t { th with phase := phase }) := by
  have outside := inherits.tidy.not_queued found elsewhere
  have found' : s'.thread t = some th := (woken.others t (.inl (outside m))).trans found
  have before := inherits.tidy.sound t th found
  have outside' := woken.inherits.tidy.not_queued found' elsewhere
  have table : (s'.setThread t { th with phase := phase }).table =
      s'.table.set t (some { th with phase := phase }) := rfl
  have threads := thread_of_table found' table
  have tidy := woken.inherits.tidy.leave found' table (fun _ => rfl)
    (fun _ => .refl _) outside' rfl ⟨before.base, before.priority, sound⟩
  refine woken.inherits.frame tidy found' threads rfl (.inr outside')
    (fun n o w owns inside => ⟨owns, inside⟩) ?_ ?_
  · intro n releases
    rw [gives n releases]
    refine .inr (left.imp ?_ ?_)
    · rintro ⟨u, entry, other, at_, gives⟩
      have idle := inherits.tidy.not_queued at_ gives.not_queuesOn m
      refine ⟨u, entry, ?_, gives⟩
      rw [threads u, if_neg other, woken.others u (.inl idle)]
      exact at_
    · intro served o w owner waiter owns inside ownerAt waiterAt
      rw [setThread_mutex, woken.owner m] at owns
      rw [setThread_mutex, woken.waiters m, if_pos rfl] at inside
      have apart : w ≠ t := fun same => outside m (same ▸ part w inside)
      rw [threads w, if_neg apart, woken.others w (.inr inside)] at waiterAt
      obtain ⟨middle, at', same⟩ := priority_before found' threads rfl ownerAt
      obtain ⟨entry, entryAt, same'⟩ := woken.priority o middle at'
      rw [same, same']
      exact served o entry owns entryAt w inside waiter waiterAt
  · intro alive none
    exact .inr ((inherits.calm t th found alive none).resolve_left (calm alive))

theorem Inheriting.wake (inherits : Inheriting s)
    (found : s.thread t = some th) (phase : th.phase = .waking m)
    (left : Unsettled s m t ∨ ∀ o owner, (s.mutex m).owner = some o → s.thread o = some owner →
        ServedAll s m (s.mutex m).waiters.tail o owner.priority) :
    Inheriting ((s.wakeOne m).setThread t { th with phase := .idle }) := by
  refine inherits.wakeOne.moveOn inherits found ?_ ?_ trivial left
    (fun _ inside => mem_of_mem_tail inside) ?_
  · simp [phase, Phase.releases, eq_comm]
  · simp [phase, Phase.queuesOn]
  · simp [phase, Phase.resets]

theorem wakeAll_wakeOne {head : Nat} (queue : (s.mutex m).waiters = head :: rest)
    : (s.wakeOne m).wakeAll m = s.wakeAll m := by
  have emptied : ∀ s : State, ∀ mx mx' : Mutex, Function.update
      (Function.update s.mutex m mx) m mx' = Function.update s.mutex m mx' := fun s mx mx' =>
    update_idem mx mx' s.mutex
  cases found : threadAt s.table head with
  | none =>
    simp only [State.wakeOne, queue, State.thread, found, State.wakeAll,
      State.setMutex, update_self, emptied, wakeEach]
  | some =>
    simp only [State.wakeOne, queue, State.thread, found, State.wakeAll,
      State.setMutex, State.setThread, update_self, emptied, wakeEach]

theorem Woken.trans {s'' : State} {queue : List Nat} (one : Woken s s' m queue)
    (two : Woken s' s'' m rest) (shorter : ∀ u ∈ rest, u ∈ queue)
    (part : ∀ u ∈ queue, u ∈ (s.mutex m).waiters) : Woken s s'' m rest where
  inherits := two.inherits
  owner n := (two.owner n).trans (one.owner n)
  waiters n := by
    rw [two.waiters n]
    split
    · rfl
    · rename_i apart
      rw [one.waiters n, if_neg apart]
  others u apart := by
    have queue' : (s'.mutex m).waiters = queue := by rw [one.waiters m, if_pos rfl]
    rcases apart with outside | later
    · have unqueued : u ∉ queue := fun inside => outside (part u inside)
      rw [two.others u (.inl (queue' ▸ unqueued)), one.others u (.inl outside)]
    · rw [two.others u (.inr later), one.others u (.inr (shorter u later))]
  priority u entry at_ := by
    obtain ⟨middle, at', same⟩ := two.priority u entry at_
    obtain ⟨old, before, same'⟩ := one.priority u middle at'
    exact ⟨old, before, same.trans same'⟩

/-- Waking all empties the queue. -/
theorem Inheriting.wakeAll (inherits : Inheriting s) : Woken s (s.wakeAll m) m [] := by
  generalize size : (s.mutex m).waiters.length = count
  induction count generalizing s with
  | zero =>
    have empty := length_eq_zero_iff.mp size
    have same : s.wakeAll m = s := by
      have kept : ({ s.mutex m with waiters := [] } : Mutex) = s.mutex m := by rw [← empty]
      simp only [State.wakeAll, State.setMutex, empty, wakeEach]
      rw [kept, update_eq_self]
    rw [same]
    exact inherits.wokenNone empty
  | succ count ih =>
    cases queue : (s.mutex m).waiters with
    | nil =>
      rw [queue] at size
      cases size
    | cons =>
      have one := inherits.wakeOne (m := m)
      rw [queue, tail_cons] at one
      have left : ((s.wakeOne m).mutex m).waiters.length = count := by
        rw [one.waiters m, if_pos rfl]
        rw [queue] at size
        exact Nat.succ.inj size
      rw [← wakeAll_wakeOne queue]
      refine one.trans (ih one.inherits left) nofun ?_
      intro u inside
      rw [queue]
      exact mem_cons_of_mem _ inside

theorem Inheriting.wakeOrphan (inherits : Inheriting s)
    (found : s.thread t = some th) (phase : th.phase = .orphaning m) :
    Inheriting ((s.wakeAll m).setThread t { th with phase := .reaping }) := by
  refine inherits.wakeAll.moveOn inherits found ?_ ?_ ?_ (.inr fun _ _ _ _ => nofun) nofun ?_
  · simp [phase, Phase.releases, eq_comm]
  · simp [phase, Phase.queuesOn]
  · simpa only [phase, Phase.sound] using (inherits.tidy.sound t th found).phase
  · simp [phase, Phase.resets]

/-! ### Queueing up -/

/-- A waiter joins the queue with its request recorded. -/
theorem Inheriting.register {req : Nat} (inherits : Inheriting s)
    (found : s.thread t = some th) (phase : th.phase = .registering m req)
    (current : req = th.priority) (table : s'.table = s.table.set t (some { th with
        blocked := true
        timedOut := false
        waitingOn := some m
        waitingOwner := (s.mutex m).owner
        phase := .boosting m (s.mutex m).owner req }))
    (owner : ∀ n, (s'.mutex n).owner = (s.mutex n).owner) (joined : ∀ n, (s'.mutex n).waiters =
      if n = m then (s.mutex m).waiters ++ [t] else (s.mutex n).waiters) : Inheriting s' := by
  have before := inherits.tidy.sound t th found
  have outside : ∀ n, t ∉ (s.mutex n).waiters :=
    inherits.tidy.not_queued found (by simp [phase, Phase.queuesOn])
  have threads := thread_of_table found table
  have joins : ∀ n w, w ∈ (s'.mutex n).waiters → w ∈ (s.mutex n).waiters ∨ (n = m ∧ w = t) := by
    intro n w inside
    rw [joined n] at inside
    split at inside
    · rename_i same
      subst same
      rcases mem_append.mp inside with old | new
      · exact .inl old
      · exact .inr ⟨rfl, mem_singleton.mp new⟩
    · exact .inl inside
  have tidy : Tidy s' := by
    refine inherits.tidy.update found table (inherits.tidy.owns_kept found owner rfl)
      (inherits.tidy.ownedNodup t th found)
      ⟨before.base, before.priority, current ▸ before.priority⟩ ?_ ?_ ?_
    · intro n
      rw [joined n]
      split
      · refine nodup_append'.mpr ⟨inherits.tidy.nodup m, nodup_singleton t, ?_⟩
        simpa using outside m
      · exact inherits.tidy.nodup n
    · intro n w inside apart
      exact (joins n w inside).resolve_right fun new => apart new.2
    · intro n inside
      rcases joins n t inside with old | ⟨same, _⟩
      · exact absurd old (outside n)
      · subst same
        exact ⟨rfl, rfl, rfl⟩
  refine ⟨tidy, ?_, ?_⟩
  · intro n o w ownerTh waiter owns inside ownerAt waiterAt
    rw [owner n] at owns
    obtain ⟨entry, entryAt, priority⟩ := priority_before found threads rfl ownerAt
    rcases joins n w inside with old | ⟨rfl, rfl⟩
    · have apart : w ≠ t := fun same => outside n (same ▸ old)
      rw [threads w, if_neg apart] at waiterAt
      rw [priority]
      refine (inherits.served n o w entry waiter owns old entryAt waiterAt).imp ?_ id
      rintro ⟨u, other, at_, gives⟩
      refine ⟨u, other, ?_, gives⟩
      rw [threads u, if_neg]
      · exact at_
      rintro rfl
      cases found.symm.trans at_
      simp [phase, Phase.releases] at gives
    · rw [threads w, if_pos rfl] at waiterAt
      cases waiterAt
      refine .inr (.inr ?_)
      rw [owns, current]
  · intro u entry at_ alive none
    rw [threads u] at at_
    split at at_
    · cases at_
      refine .inr ((inherits.calm t th found alive none).resolve_left ?_)
      simp [phase, Phase.resets]
    · exact inherits.calm u entry at_ alive none

/-! ### Setting the own priority -/

variable {prio : Nat}

/-- A recorded request bounds the effective priority. -/
theorem effectivePriority_recorded (recorded : Recorded s th prio) :
    effectivePriority s th ≤ prio := by
  have walk : ∀ (owned : List Nat) (start : Nat),
      (start ≤ prio ∨ ∃ m ∈ owned, (s.mutex m).boostPrio ≤ prio) →
      owned.foldl (fun eff m => min eff (s.mutex m).boostPrio) start ≤ prio := by
    intro owned
    induction owned with
    | nil =>
      rintro _ (base | ⟨_, inside, _⟩)
      · exact base
      · cases inside
    | cons _ _ ih =>
      rintro _ (base | ⟨m, inside, covers⟩)
      · exact ih _ (.inl (le_trans (min_le_left ..) base))
      rcases mem_cons.mp inside with rfl | later
      · exact ih _ (.inl (le_trans (min_le_right ..) covers))
      · exact ih _ (.inr ⟨m, later, covers⟩)
  exact walk th.owned th.base recorded

theorem setPriority_eq (range : prio < numPriorities) :
    th.setPriority prio = { th with priority := prio } :=
  if_neg (Nat.not_le_of_lt range)

/-- The recomputed priority still serves every waiter of what the thread owns. -/
theorem Inheriting.apply {eff : Nat} (inherits : Inheriting s)
    (found : s.thread t = some th) (phase : th.phase = .applying m eff)
    (current : eff = effectivePriority s th)
    (recorded : ∀ n ∈ th.owned, Unsettled s n t ∨
      ∀ w ∈ (s.mutex n).waiters, ∀ waiter, s.thread w = some waiter →
        Recorded s th waiter.priority ∨ waiter.phase = .boosting n (some t) waiter.priority)
    (table : s'.table = s.table.set t (some { th with priority := eff, phase := .waking m }))
    (mutex : s'.mutex = s.mutex) : Inheriting s' := by
  have before := inherits.tidy.sound t th found
  have range : eff < numPriorities := by simpa only [phase, Phase.sound] using before.phase
  have outside : ∀ n, t ∉ (s.mutex n).waiters :=
    inherits.tidy.not_queued found (by simp [phase, Phase.queuesOn])
  have threads := thread_of_table found table
  have tidy : Tidy s' := inherits.tidy.leave found table (fun n => by rw [mutex])
    (fun n => by rw [mutex]) (by rw [mutex]; exact outside) rfl ⟨before.base, range, trivial⟩
  have stays : ∀ n, Releasing s n → Releasing s' n := by
    rintro _ ⟨u, entry, at_, gives⟩
    by_cases same : u = t
    · subst same
      cases found.symm.trans at_
      rw [phase] at gives
      exact ⟨u, _, by rw [threads u, if_pos rfl], gives⟩
    · exact ⟨u, entry, by rw [threads u, if_neg same]; exact at_, gives⟩
  refine ⟨tidy, ?_, ?_⟩
  · intro n o w owner waiter owns inside ownerAt waiterAt
    rw [mutex] at owns inside
    have apart : w ≠ t := fun same => outside n (same ▸ inside)
    rw [threads w, if_neg apart] at waiterAt
    rw [threads o] at ownerAt
    split at ownerAt
    · rename_i self
      subst self
      cases ownerAt
      rcases recorded n ((inherits.tidy.mem_owned found).mpr owns) with ⟨u, entry, _, at_, gives⟩ | covers
      · exact .inl (stays n ⟨u, entry, at_, gives⟩)
      refine .inr ((covers w inside waiter waiterAt).imp ?_ id)
      intro written
      rw [current]
      exact effectivePriority_recorded written
    · exact (inherits.served n o w owner waiter owns inside ownerAt waiterAt).imp (stays n) id
  · intro u entry at_ alive none
    rw [threads u] at at_
    split at at_
    · cases at_
      refine .inr ?_
      rw [current, effectivePriority, none]
      rfl
    · exact inherits.calm u entry at_ alive none

/-! ### The boost walk -/

/-- The walk has raised the thread at `u`: it owns a mutex, and the owner of the
mutex that it waits for is raised as well, or is the thread the walk has
started from. -/
structure RaisedAt (mutex : Nat → Mutex) (tid prio : Nat)
    (table table' : List (Option Thread)) (u : Nat) (th : Thread) : Prop where
  before : threadAt table u = some th
  less : prio < th.priority
  after : threadAt table' u = some { th with priority := prio }
  owned : th.owned ≠ []
  link : th.blocked = true → ∀ m, th.waitingOn = some m → ∃ next, (mutex m).owner = some next ∧
    (next = tid ∨ ∀ entry, threadAt table' next = some entry → entry.priority ≤ prio)

/-- What the walk does to a table. -/
structure Boosted (mutex : Nat → Mutex) (tid prio cursor : Nat)
    (table table' : List (Option Thread)) : Prop where
  length : table'.length = table.length
  threads : ∀ u, threadAt table' u = threadAt table u ∨
    ∃ th, RaisedAt mutex tid prio table table' u th
  cursor : ∀ entry, threadAt table' cursor = some entry → entry.priority ≤ prio

variable {mutex : Nat → Mutex} {tid : Nat}

variable {cursor : Nat}

theorem Boosted.unchanged (urgent : ∀ entry, threadAt table cursor = some entry →
    entry.priority ≤ prio) : Boosted mutex tid prio cursor table table :=
  ⟨rfl, fun _ => .inl rfl, urgent⟩

theorem Boosted.stop (found : threadAt table cursor = some th)
    (less : prio < th.priority) (owned : th.owned ≠ [])
    (link : th.blocked = true → ∀ m, th.waitingOn = some m →
      ∃ next, (mutex m).owner = some next ∧ (next = tid ∨ next = cursor)) :
    Boosted mutex tid prio cursor table (table.set cursor (some { th with priority := prio })) := by
  have threads := threadAt_set table (lt_of_threadAt found) (some { th with priority := prio })
  have self : threadAt (table.set cursor (some { th with priority := prio }))
      cursor = some { th with priority := prio } := by
    rw [threads cursor, if_pos rfl]
  refine ⟨length_set, fun u => ?_, fun entry at_ => ?_⟩
  · by_cases same : u = cursor
    · subst same
      refine .inr ⟨th, found, less, self, owned, fun blocked m waits => ?_⟩
      obtain ⟨next, owns, ends⟩ := link blocked m waits
      refine ⟨next, owns, ends.imp id ?_⟩
      rintro rfl entry at_
      cases self.symm.trans at_
      exact le_refl _
    · rw [threads u, if_neg same]
      exact .inl rfl
  · cases self.symm.trans at_
    exact le_refl _

variable {table' : List (Option Thread)}

theorem Boosted.go {next m : Nat} (found : threadAt table cursor = some th)
    (less : prio < th.priority) (owned : th.owned ≠ []) (waits : th.waitingOn = some m)
    (owns : (mutex m).owner = some next) (rest : Boosted mutex tid prio next
      (table.set cursor (some { th with priority := prio })) table') :
    Boosted mutex tid prio cursor table table' := by
  have threads := threadAt_set table (lt_of_threadAt found) (some { th with priority := prio })
  -- the walk may come back to the cursor, but does not change it again
  have self : threadAt table' cursor = some { th with priority := prio } := by
    rcases rest.threads cursor with same | ⟨entry, raised⟩
    · rw [same, threads cursor, if_pos rfl]
    have again := raised.before
    rw [threads cursor, if_pos rfl] at again
    cases again
    exact absurd raised.less (lt_irrefl _)
  refine ⟨rest.length.trans length_set, fun u => ?_, fun entry at_ => ?_⟩
  · by_cases same : u = cursor
    · subst same
      refine .inr ⟨th, found, less, self, owned, fun _ n waitsOn => ?_⟩
      cases waits.symm.trans waitsOn
      exact ⟨next, owns, .inr rest.cursor⟩
    · rcases rest.threads u with kept | ⟨entry, raised⟩
      · rw [kept, threads u, if_neg same]
        exact .inl rfl
      · have before := raised.before
        rw [threads u, if_neg same] at before
        exact .inr ⟨entry, { raised with before := before }⟩
  · cases self.symm.trans at_
    exact le_refl _

/-- The walk only raises threads, and serves the one it starts at. -/
theorem boostWalk_spec (range : prio < numPriorities) (depth : Nat) : ∀ (cursor : Nat) (table : List
    (Option Thread)), table.length = maxThreads → ChainOk mutex tid prio depth cursor table →
      Boosted mutex tid prio cursor table (boostWalk tid prio depth cursor table) := by
  induction depth with
  | zero => exact fun cursor table _ chain => .unchanged chain
  | succ _ ih =>
    intro cursor table length chain
    rw [boostWalk]
    cases found : threadAt table cursor with
    | none =>
      have none : ∀ entry, threadAt table cursor = some entry → entry.priority ≤ prio := by
        rw [found]
        nofun
      split <;> exact .unchanged none
    | some th =>
      have inside := lt_of_threadAt found
      by_cases enough : th.priority ≤ prio
      · have urgent : ∀ entry, threadAt table cursor = some entry → entry.priority ≤ prio := by
          intro entry at_
          cases found.symm.trans at_
          exact enough
        split
        · exact .unchanged urgent
        dsimp only
        rw [if_pos enough]
        exact .unchanged urgent
      obtain ⟨positive, owned, link⟩ := (chain th found).resolve_left enough
      have less := Nat.lt_of_not_le enough
      rw [setPriority_eq range] at link
      rw [if_neg (by omega)]
      dsimp only
      rw [if_neg enough]
      split
      · rename_i ends
        rw [setPriority_eq range]
        refine Boosted.stop found less owned fun blocked m waits => ?_
        rw [blocked, waits] at ends
        simp at ends
      rename_i goesOn
      obtain ⟨blocked, waits⟩ := not_or.mp goesOn
      obtain ⟨m, waits⟩ := ne_none_iff_exists'.mp waits
      obtain ⟨next, photo, owns, onward⟩ := link (Bool.not_eq_false _ ▸ blocked) m waits
      rw [photo]
      dsimp only
      rw [setPriority_eq range]
      split
      · rename_i ends
        refine Boosted.stop found less owned fun _ n waitsOn => ?_
        cases waits.symm.trans waitsOn
        exact ⟨next, owns, ends.symm⟩
      · rename_i further
        obtain ⟨notCursor, notTid⟩ := not_or.mp further
        have chain' := (onward.resolve_left notCursor).resolve_left notTid
        exact Boosted.go found less owned waits owns (ih next _ (length_set.trans length) chain')

/-- What `thread_boost_by_tid` does: a thread is as before, or is raised and
owns a mutex, and then so is the owner that it waits for; the thread that was
asked for is urgent enough. -/
structure Uplift (s : State) (owner : Option Nat) (prio : Nat)
    (table' : List (Option Thread)) : Prop where
  length : table'.length = s.table.length
  threads : ∀ u, threadAt table' u = s.thread u ∨ ∃ th, s.thread u = some th ∧
    prio < th.priority ∧ threadAt table' u = some { th with priority := prio } ∧
      th.owned ≠ [] ∧
      (th.blocked = true → ∀ m, th.waitingOn = some m → ∃ next, (s.mutex m).owner = some next ∧
        ∀ entry, threadAt table' next = some entry → entry.priority ≤ prio)
  target : ∀ tid, owner = some tid → ∀ entry,
    threadAt table' tid = some entry → entry.priority ≤ prio

/-- A boost only raises threads that own a mutex, and serves the one asked for. -/
theorem threadBoostByTid_spec (owner : Option Nat)
    (range : prio < numPriorities) (length : s.table.length = maxThreads)
    (chain : ∀ tid, owner = some tid → ChainOk s.mutex tid prio chainMaxDepth tid s.table) :
    Uplift s owner prio (threadBoostByTid s.table owner prio) := by
  cases owner with
  | none => exact ⟨rfl, fun u => .inl rfl, nofun⟩
  | some tid =>
    have boosted := boostWalk_spec range chainMaxDepth tid s.table length (chain tid rfl)
    constructor
    case length => exact boosted.length
    case threads =>
      refine fun u => (boosted.threads u).imp id ?_
      rintro ⟨th, raised⟩
      refine ⟨th, raised.before, raised.less, raised.after, raised.owned, ?_⟩
      intro blocked m waits
      obtain ⟨next, owns, start | done⟩ := raised.link blocked m waits
      · subst start
        exact ⟨next, owns, boosted.cursor⟩
      · exact ⟨next, owns, done⟩
    case target =>
      rintro _ ⟨⟩
      exact boosted.cursor

/-- A thread after a boost, and after the move of the booster. -/
structure Moved (s : State) (t m : Nat) (table' : List (Option Thread))
    (prio u : Nat) (old entry : Thread) : Prop where
  before : s.thread u = some old
  same : entry = { old with priority := entry.priority, phase := entry.phase }
  phase : (u = t ∧ entry.phase = .waiting m) ∨ (u ≠ t ∧ entry.phase = old.phase)
  priority : entry.priority = old.priority ∨ (entry.priority = prio ∧
    prio < old.priority ∧ old.owned ≠ [] ∧ (old.blocked = true → ∀ n, old.waitingOn = some n →
        ∃ next, (s.mutex n).owner = some next ∧ ∀ other,
          threadAt table' next = some other → other.priority ≤ prio))

theorem Moved.le {u : Nat} {old : Thread} (moved : Moved s t m table' prio u old entry) :
    entry.priority ≤ old.priority := by
  rcases moved.priority with same | ⟨set, less, _⟩
  · exact le_of_eq same
  · rw [set]
    exact le_of_lt less

variable {owner : Option Nat} {raised : Thread}

section

variable (uplift : Uplift s owner prio table') (here : threadAt table' t = some raised) {u : Nat}
include uplift here

theorem Uplift.moved
    (at_ : threadAt (table'.set t (some { raised with phase := .waiting m })) u = some entry) :
    ∃ old, Moved s t m table' prio u old entry ∧
      ∃ new, threadAt table' u = some new ∧ new.priority = entry.priority := by
  rw [threadAt_set _ (lt_of_threadAt here)] at at_
  split at at_
  · rename_i self
    subst self
    cases at_
    rcases uplift.threads u with kept | ⟨old, before, less, after, rest⟩
    · rw [here] at kept
      exact ⟨raised, ⟨kept.symm, rfl, .inl ⟨rfl, rfl⟩, .inl rfl⟩, raised, here, rfl⟩
    · cases here.symm.trans after
      exact ⟨old, ⟨before, rfl, .inl ⟨rfl, rfl⟩, .inr ⟨rfl, less, rest⟩⟩, _, here, rfl⟩
  · rename_i other
    rcases uplift.threads u with kept | ⟨old, before, less, after, rest⟩
    · exact ⟨entry, ⟨kept.symm.trans at_, rfl, .inr ⟨other, rfl⟩, .inl rfl⟩, entry, at_, rfl⟩
    · cases after.symm.trans at_
      exact ⟨old, ⟨before, rfl, .inr ⟨other, rfl⟩, .inr ⟨rfl, less, rest⟩⟩, _, after, rfl⟩

theorem Uplift.stays {old : Thread} (before : s.thread u = some old) :
    ∃ entry, threadAt (table'.set t (some { raised with phase := .waiting m })) u = some entry := by
  rw [threadAt_set _ (lt_of_threadAt here)]
  split
  · exact ⟨_, rfl⟩
  rcases uplift.threads u with kept | ⟨_, _, _, after, _⟩
  · exact ⟨old, kept.trans before⟩
  · exact ⟨_, after⟩

end

/-- `thread_boost_by_tid` along true links serves the waiter that has called
it, and whoever waits along the chain. -/
theorem Inheriting.boost (inherits : Inheriting s) (found : s.thread t = some th)
    (phase : th.phase = .boosting m owner prio) (uplift : Uplift s owner prio table')
    (here : threadAt table' t = some raised) :
    Inheriting { s with table := table'.set t (some { raised with phase := .waiting m }) } := by
  have tidy : Tidy { s with table := table'.set t (some { raised with phase := .waiting m }) } := by
    constructor
    case length => exact length_set.trans (uplift.length.trans inherits.tidy.length)
    case owns =>
      intro n u
      refine (inherits.tidy.owns n u).trans ⟨?_, ?_⟩
      · rintro ⟨_, before, inside⟩
        obtain ⟨entry, at_⟩ := uplift.stays (m := m) here before
        obtain ⟨_, moved, _⟩ := uplift.moved here at_
        cases before.symm.trans moved.before
        refine ⟨entry, at_, ?_⟩
        rw [moved.same]
        exact inside
      · rintro ⟨_, at_, inside⟩
        obtain ⟨old, moved, _⟩ := uplift.moved here at_
        rw [moved.same] at inside
        exact ⟨old, moved.before, inside⟩
    case ownedNodup =>
      intro u entry at_
      obtain ⟨old, moved, _⟩ := uplift.moved here at_
      rw [moved.same]
      exact inherits.tidy.ownedNodup u old moved.before
    case queued =>
      intro n w inside
      obtain ⟨_, before, queued⟩ := inherits.tidy.queued n w inside
      obtain ⟨entry, at_⟩ := uplift.stays (m := m) here before
      obtain ⟨_, moved, _⟩ := uplift.moved here at_
      cases before.symm.trans moved.before
      refine ⟨entry, at_, ?_, ?_, ?_⟩
      · rw [moved.same]
        exact queued.blocked
      · rw [moved.same]
        exact queued.waitingOn
      rcases moved.phase with ⟨self, new⟩ | ⟨_, kept⟩
      · subst self
        cases found.symm.trans before
        have mine := queued.phase
        rw [phase] at mine
        rw [new]
        exact mine
      · rw [kept]
        exact queued.phase
    case nodup => exact inherits.tidy.nodup
    case sound =>
      intro u entry at_
      obtain ⟨old, moved, _⟩ := uplift.moved here at_
      have before := inherits.tidy.sound u old moved.before
      have dead : entry.dead = old.dead := by rw [moved.same]
      refine ⟨?_, lt_of_le_of_lt moved.le before.priority, ?_⟩
      · rw [moved.same]
        exact before.base
      rw [dead]
      rcases moved.phase with ⟨_, new⟩ | ⟨_, kept⟩
      · rw [new]
        trivial
      · rw [kept]
        exact before.phase
  refine ⟨tidy, ?_, ?_⟩
  · intro n o w ownerTh waiter owns inside ownerAt waiterAt
    obtain ⟨oldOwner, ownerMoved, newOwner, newAt, newPriority⟩ := uplift.moved here ownerAt
    obtain ⟨old, moved, _⟩ := uplift.moved here waiterAt
    rcases inherits.served n o w oldOwner old owns inside ownerMoved.before
      moved.before with ⟨u, giver, at_, gives⟩ | served
    · obtain ⟨entry, at'⟩ := uplift.stays (m := m) here at_
      obtain ⟨_, giverMoved, _⟩ := uplift.moved here at'
      cases at_.symm.trans giverMoved.before
      refine .inl ⟨u, entry, at', ?_⟩
      rcases giverMoved.phase with ⟨self, _⟩ | ⟨_, kept⟩
      · subst self
        cases found.symm.trans at_
        simp [phase, Phase.releases] at gives
      · rw [kept]
        exact gives
    refine .inr ?_
    rcases moved.priority with kept | ⟨set, _, _, link⟩
    · rcases served with urgent | owes
      · refine .inl ?_
        rw [kept]
        exact le_trans ownerMoved.le urgent
      rcases moved.phase with ⟨self, _⟩ | ⟨_, samePhase⟩
      · subst self
        cases found.symm.trans moved.before
        cases phase.symm.trans owes
        refine .inl ?_
        rw [kept, ← newPriority]
        exact uplift.target o rfl newOwner newAt
      · refine .inr ?_
        rw [samePhase, kept]
        exact owes
    · obtain ⟨_, at_, queued⟩ := inherits.tidy.queued n w inside
      cases moved.before.symm.trans at_
      obtain ⟨_, owned, urgent⟩ := link queued.blocked n queued.waitingOn
      cases owns.symm.trans owned
      refine .inl ?_
      rw [set, ← newPriority]
      exact urgent newOwner newAt
  · intro u entry at_ alive none
    obtain ⟨old, moved, _⟩ := uplift.moved here at_
    have owned : old.owned = [] := by
      rw [moved.same] at none
      exact none
    have living : old.dead = false := by
      rw [moved.same] at alive
      exact alive
    have base : entry.base = old.base := by rw [moved.same]
    rcases moved.priority with kept | ⟨_, _, some, _⟩
    · rw [kept, base]
      refine (inherits.calm u old moved.before living owned).imp ?_ id
      intro resets
      rcases moved.phase with ⟨self, _⟩ | ⟨_, samePhase⟩
      · subst self
        cases found.symm.trans moved.before
        simp [phase, Phase.resets] at resets
      · rw [samePhase]
        exact resets
    · exact absurd owned some

/-! ### Threads that come and go -/

/-- The slot of a thread that owns nothing and waits for nothing is freed, or
given to a new thread. -/
theorem Inheriting.replace {entry : Option Thread} (inherits : Inheriting s)
    (inside : t < s.table.length) (gone : ∀ th, s.thread t = some th → th.owned = [] ∧
      (∀ n, ¬ th.phase.queuesOn n) ∧ ∀ n, ¬ th.phase.releases n)
    (fresh : ∀ th, entry = some th → ∃ base, base < numPriorities ∧ th = .fresh base) :
    Inheriting { s with table := s.table.set t entry } := by
  have threads : ∀ u, threadAt (s.table.set t entry) u = if u = t then entry else s.thread u :=
    threadAt_set s.table inside entry
  have unowned : ∀ n, (s.mutex n).owner ≠ some t := by
    intro n owns
    obtain ⟨th, found, mine⟩ := (inherits.tidy.owns n t).mp owns
    rw [(gone th found).1] at mine
    cases mine
  have unqueued : ∀ n, t ∉ (s.mutex n).waiters := by
    intro n waits
    obtain ⟨th, found, queued⟩ := inherits.tidy.queued n t waits
    exact (gone th found).2.1 n queued.phase
  -- a thread of the new table is fresh or was there before
  have origin : ∀ u th, threadAt (s.table.set t entry) u = some th → (u = t ∧
      ∃ base, base < numPriorities ∧ th = .fresh base) ∨ (u ≠ t ∧ s.thread u = some th) := by
    intro u th at_
    rw [threads u] at at_
    split at at_
    · rename_i self
      exact .inl ⟨self, fresh th at_⟩
    · rename_i other
      exact .inr ⟨other, at_⟩
  have tidy : Tidy { s with table := s.table.set t entry } := by
    constructor
    case length => exact length_set.trans inherits.tidy.length
    case owns =>
      intro n u
      refine (inherits.tidy.owns n u).trans ⟨?_, ?_⟩
      · rintro ⟨th, found, mine⟩
        have other : u ≠ t := by
          rintro rfl
          exact unowned n ((inherits.tidy.owns n u).mpr ⟨th, found, mine⟩)
        refine ⟨th, ?_, mine⟩
        rw [State.thread, threads u, if_neg other]
        exact found
      · rintro ⟨th, at_, mine⟩
        rcases origin u th at_ with ⟨_, base, _, rfl⟩ | ⟨_, found⟩
        · cases mine
        · exact ⟨th, found, mine⟩
    case ownedNodup =>
      intro u th at_
      rcases origin u th at_ with ⟨_, base, _, rfl⟩ | ⟨_, found⟩
      · exact nodup_nil
      · exact inherits.tidy.ownedNodup u th found
    case queued =>
      intro n w waits
      obtain ⟨th, found, queued⟩ := inherits.tidy.queued n w waits
      have other : w ≠ t := by
        rintro rfl
        exact unqueued n waits
      refine ⟨th, ?_, queued⟩
      rw [State.thread, threads w, if_neg other]
      exact found
    case nodup => exact inherits.tidy.nodup
    case sound =>
      intro u th at_
      rcases origin u th at_ with ⟨_, base, small, rfl⟩ | ⟨_, found⟩
      · exact ⟨small, small, trivial⟩
      · exact inherits.tidy.sound u th found
  refine ⟨tidy, ?_, ?_⟩
  · intro n o w owner waiter owns waits ownerAt waiterAt
    have ownerOld := (origin o owner ownerAt).resolve_left fun new => unowned n (new.1 ▸ owns)
    have waiterOld := (origin w waiter waiterAt).resolve_left fun new => unqueued n (new.1 ▸ waits)
    refine (inherits.served n o w owner waiter owns waits ownerOld.2 waiterOld.2).imp ?_ id
    rintro ⟨u, giver, found, gives⟩
    have other : u ≠ t := by
      rintro rfl
      exact (gone giver found).2.2 n gives
    refine ⟨u, giver, ?_, gives⟩
    rw [State.thread, threads u, if_neg other]
    exact found
  · intro u th at_ alive none
    rcases origin u th at_ with ⟨_, base, _, rfl⟩ | ⟨_, found⟩
    · exact .inr rfl
    · exact inherits.calm u th found alive none

end Sections

/-! ### Runs -/

section Runs

variable {s s' : State} {label : Label}

theorem Inheriting.initial : Inheriting initial := by
  have empty : ∀ t, Mutexes.initial.thread t = none := by
    intro t
    simp only [Mutexes.initial, State.thread, threadAt,
      getD_eq_getElem?_getD, List.getElem?_replicate]
    split <;> rfl
  have tidy : Tidy Mutexes.initial := by
    constructor
    case length =>
      exact length_replicate
    case owns =>
      intro m t
      rw [empty t]
      simp [Mutexes.initial, Mutex.initial]
    case queued => exact fun m w inside => absurd inside not_mem_nil
    case nodup => exact fun m => nodup_nil
    all_goals
      intro t th found
      rw [empty t] at found
      cases found
  refine ⟨tidy, ?_, ?_⟩
  · exact fun m o w owner waiter owns inside => absurd inside not_mem_nil
  intro t th found
  rw [empty t] at found
  cases found

/-- A section that does what the inheritance relies on keeps the invariant. -/
theorem Inheriting.step (inherits : Inheriting s) (taken : step s label s')
    (limit : WithinLimit s label) (relies : Inherits s label) : Inheriting s' := by
  cases label with
  | spawn _ base =>
    obtain ⟨⟨inside, none, small⟩, taken⟩ := ite_none_right_eq_some.mp taken
    cases taken
    refine inherits.replace inside ?_ ?_
    · intro th found
      rw [none] at found
      cases found
    · rintro _ ⟨⟩
      exact ⟨base, small, rfl⟩
  | lock _ m =>
    obtain ⟨th, found, taken⟩ := bind_eq_some_iff.mp taken
    split at taken
    · rename_i ready
      cases owner : (s.mutex m).owner with
      | none =>
        rw [owner] at taken
        cases taken
        exact inherits.take found (ready.1.imp id fun again => ⟨m, again⟩)
          owner (limit th found owner) (relies th found owner)
      | some =>
        rw [owner] at taken
        cases taken
        exact inherits.contend found ready.1
    · cases taken
  | register =>
    obtain ⟨th, found, taken⟩ := bind_eq_some_iff.mp taken
    split at taken
    · rename_i m req phase
      cases taken
      refine inherits.register found phase (relies th m req found phase) rfl ?_ ?_
      all_goals
        intro n
        by_cases same : n = m
        · subst same
          simp
        · simp [setMutex_other _ same, same]
    · cases taken
  | boost t =>
    obtain ⟨th, found, taken⟩ := bind_eq_some_iff.mp taken
    split at taken
    · rename_i m owner req phase
      obtain ⟨raised, here, rfl⟩ := map_eq_some_iff.mp taken
      have range : req < numPriorities := by
        simpa only [phase, Phase.sound] using (inherits.tidy.sound t th found).phase
      have uplift := threadBoostByTid_spec owner range inherits.tidy.length fun tid photo =>
          relies th m tid req found (photo ▸ phase)
      exact inherits.boost found phase uplift here
    · cases taken
  | resume =>
    obtain ⟨th, found, taken⟩ := bind_eq_some_iff.mp taken
    split at taken
    · rename_i m phase
      split at taken
      · cases taken
      rename_i woken
      cases taken
      exact inherits.resume found phase (by simpa using woken)
    · cases taken
  | trylock _ m =>
    obtain ⟨th, found, taken⟩ := bind_eq_some_iff.mp taken
    split at taken
    · rename_i ready
      cases owner : (s.mutex m).owner with
      | none =>
        rw [owner] at taken
        cases taken
        exact inherits.take found (.inl ready.1) owner
          (limit th found owner) (relies th found owner)
      | some =>
        rw [owner] at taken
        cases taken
        exact inherits
    · cases taken
  | unlock =>
    obtain ⟨th, found, taken⟩ := bind_eq_some_iff.mp taken
    split at taken
    · rename_i ready
      split at taken
      · rename_i owns
        cases taken
        exact inherits.unlock found ready.1 owns
      · cases taken
        exact inherits
    · cases taken
  | recompute =>
    obtain ⟨th, found, taken⟩ := bind_eq_some_iff.mp taken
    split at taken
    · rename_i m phase
      cases taken
      exact inherits.recompute found phase
    · cases taken
  | apply t =>
    obtain ⟨th, found, taken⟩ := bind_eq_some_iff.mp taken
    split at taken
    · rename_i m eff phase
      cases taken
      obtain ⟨current, recorded⟩ := relies th m eff found phase
      have range : eff < numPriorities := by
        simpa only [phase, Phase.sound] using (inherits.tidy.sound t th found).phase
      refine inherits.apply found phase current recorded ?_ rfl
      rw [setPriority_eq range]
      rfl
    · cases taken
  | wake =>
    obtain ⟨th, found, taken⟩ := bind_eq_some_iff.mp taken
    split at taken
    · rename_i m phase
      cases taken
      exact inherits.wake found phase (relies th m found phase)
    · cases taken
  | timeout =>
    obtain ⟨th, found, taken⟩ := bind_eq_some_iff.mp taken
    split at taken
    · rename_i m waits
      split at taken
      · cases taken
        exact inherits.leave found waits true
      · cases taken
    · cases taken
  | die =>
    obtain ⟨th, found, taken⟩ := bind_eq_some_iff.mp taken
    have left := fun m => relies th m found
    split at taken
    · cases taken
    · cases taken
    · cases taken
    cases taken
    obtain ⟨table, owner, waiters, unqueued⟩ := inherits.tidy.leaveQueue found
    refine inherits.die found owner waiters unqueued ?_ left
    rw [← table]
    rfl
  | orphan =>
    obtain ⟨th, found, taken⟩ := bind_eq_some_iff.mp taken
    split at taken
    · rename_i m phase last
      split at taken
      · split at taken
        · cases taken
          exact inherits.orphan found phase last
        · rename_i stranger
          exact absurd ((inherits.tidy.mem_owned found).mp (mem_of_getLast? last)) stranger
      · cases taken
    · cases taken
  | wakeAll =>
    obtain ⟨th, found, taken⟩ := bind_eq_some_iff.mp taken
    split at taken
    · rename_i m phase
      cases taken
      exact inherits.wakeOrphan found phase
    · cases taken
  | reaped =>
    obtain ⟨th, found, taken⟩ := bind_eq_some_iff.mp taken
    obtain ⟨⟨phase, none⟩, taken⟩ := ite_none_right_eq_some.mp taken
    cases taken
    refine inherits.replace (lt_of_threadAt found) ?_ nofun
    intro entry at_
    cases found.symm.trans at_
    refine ⟨none, ?_, ?_⟩
    · simp [phase, Phase.queuesOn]
    · simp [phase, Phase.releases]

/-- In every quiescent state of a run whose sections do what the inheritance
relies on, priorities are inherited. -/
theorem priority_inheritance {labels : List Label} (run : Steps (Guarded step fun s label =>
      WithinLimit s label ∧ Inherits s label) initial labels s)
    (quiet : Quiescent s) : Inherited s := by
  have inherits : Inheriting s := run.invariant
    (fun _ _ _ old next => old.step next.1 next.2.1 next.2.2) Inheriting.initial
  constructor
  case urgent =>
    intro m o w owner waiter owns inside ownerAt waiterAt
    rcases inherits.served m o w owner waiter owns inside ownerAt waiterAt with
      ⟨u, giver, at_, gives⟩ | urgent | owes
    · rcases quiet u giver at_ with phase | ⟨n, phase⟩ | ⟨n, phase⟩ | phase
      all_goals simp [phase, Phase.releases] at gives
    · exact urgent
    · rcases quiet w waiter waiterAt with phase | ⟨n, phase⟩ | ⟨n, phase⟩ | phase
      all_goals simp [phase] at owes
  case calm =>
    intro t th found alive unowned
    have none : th.owned = [] := by
      refine eq_nil_iff_forall_not_mem.mpr fun m mine => ?_
      exact unowned m ((inherits.tidy.owns m t).mpr ⟨th, found, mine⟩)
    refine (inherits.calm t th found alive none).resolve_left ?_
    rcases quiet t th found with phase | ⟨n, phase⟩ | ⟨n, phase⟩ | phase
    all_goals simp [phase, Phase.resets]

/-- A test that is enough for `WithinLimit` and `Inherits`, for runs without
chains of waiting owners. -/
def plainCheck (s : State) : Label → Bool
  | .lock t m =>
    (s.thread t).all fun th => (s.mutex m).owner.isSome ||
      (decide (th.owned.length < maxOwnedMutexes) &&
        (s.mutex m).waiters.all fun w => (s.thread w).all fun waiter =>
          decide (th.priority ≤ waiter.priority))
  | .register t =>
    (s.thread t).all fun th =>
      match th.phase with
      | .registering _ req => req == th.priority
      | _ => true
  | .boost t =>
    (s.thread t).all fun th =>
      match th.phase with
      | .boosting _ (some tid) req =>
        (s.thread tid).all fun owner => decide (owner.priority ≤ req) ||
          (decide (0 < tid) && !owner.owned.isEmpty && !owner.blocked)
      | _ => true
  | .apply t =>
    (s.thread t).all fun th =>
      match th.phase with
      | .applying _ eff =>
        decide (eff = effectivePriority s th) && th.owned.isEmpty
      | _ => true
  | .wake t =>
    (s.thread t).all fun th =>
      match th.phase with
      | .waking m => (s.mutex m).owner.isNone
      | _ => true
  | .die t =>
    (s.thread t).all fun th =>
      match th.phase with
      | .waiting _ => true
      | _ => false
  | .trylock _ _ => false
  | _ => true

/-- The check of a section implies its guard and what it keeps. -/
theorem plainCheck_sound (passed : plainCheck s label = true) :
    WithinLimit s label ∧ Inherits s label := by
  cases label with
  | lock t m =>
    have test : ∀ th, s.thread t = some th →
        (s.mutex m).owner = none → th.owned.length < maxOwnedMutexes ∧ ∀ w ∈ (s.mutex m).waiters,
        ∀ waiter, s.thread w = some waiter → th.priority ≤ waiter.priority := by
      intro th found free
      have test : th.owned.length < maxOwnedMutexes ∧ ∀ w ∈ (s.mutex m).waiters,
          (s.thread w).all (fun waiter => decide (th.priority ≤ waiter.priority)) = true := by
        simpa [plainCheck, found, free] using passed
      refine ⟨test.1, fun w inside waiter at_ => ?_⟩
      simpa [at_] using test.2 w inside
    refine ⟨fun th found free => (test th found free).1, fun th found free => .inr ?_⟩
    exact fun w inside waiter at_ => .inl ((test th found free).2 w inside waiter at_)
  | register =>
    refine ⟨trivial, fun th m req found phase => ?_⟩
    simpa [plainCheck, found, phase] using passed
  | boost =>
    refine ⟨trivial, fun th m tid req found phase => ?_⟩
    simp only [plainCheck, found, phase, all_some] at passed
    intro owner at_
    rw [show s.thread tid = some owner from at_] at passed
    simp only [all_some, Bool.or_eq_true, decide_eq_true_eq,
      Bool.and_eq_true, Bool.not_eq_true', isEmpty_eq_false_iff] at passed
    refine passed.imp id fun rest => ⟨rest.1.1, rest.1.2, fun blocked => ?_⟩
    rw [rest.2] at blocked
    cases blocked
  | apply =>
    refine ⟨trivial, fun th m eff found phase => ?_⟩
    simp only [plainCheck, found, phase, all_some, Bool.and_eq_true, decide_eq_true_eq,
      List.isEmpty_iff] at passed
    exact ⟨passed.1, fun n mine => by rw [passed.2] at mine; cases mine⟩
  | wake =>
    refine ⟨trivial, fun th m found phase => .inr fun o owner owns => ?_⟩
    simp [plainCheck, found, phase, owns] at passed
  | die =>
    refine ⟨trivial, fun th m found gives => ?_⟩
    simp only [plainCheck, found, all_some] at passed
    split at passed
    · next phase =>
        rw [phase] at gives
        cases gives
    · cases passed
  | trylock => cases passed
  | _ => exact ⟨trivial, trivial⟩

/-- A test for quiescence. -/
def quietCheck (s : State) : Bool :=
  s.table.all fun entry => entry.all fun th =>
    match th.phase with
    | .idle => true
    | .waiting _ => true
    | .retrying _ => true
    | .reaping => true
    | _ => false

theorem quietCheck_sound (passed : quietCheck s = true) : Quiescent s := by
  intro t th found
  have inside : some th ∈ s.table := by
    have bound := lt_of_threadAt found
    rw [State.thread, threadAt, getD_eq_getElem?_getD,
      List.getElem?_eq_getElem bound, getD_some] at found
    rw [← found]
    exact getElem_mem bound
  have test := all_eq_true.mp passed (some th) inside
  rw [all_some] at test
  split at test
  · rename_i phase
    exact .inl phase
  · rename_i m phase
    exact .inr (.inl ⟨m, phase⟩)
  · rename_i m phase
    exact .inr (.inr (.inl ⟨m, phase⟩))
  · rename_i phase
    exact .inr (.inr (.inr phase))
  · cases test

/-- Threads of priorities 1, 2 and 0 wait for one of priority 3, and the last
one gives up.  The owner unlocks, the first waiter takes the mutex, and the
second one dies. -/
def handOver : List Label :=
  [.spawn 1 3, .spawn 2 1, .spawn 3 2, .spawn 4 0, .lock 1 0, .lock 2 0, .register 2,
    .boost 2, .lock 3 0, .register 3, .boost 3, .lock 4 0, .register 4, .boost 4, .timeout 4,
    .resume 4, .unlock 1 0, .recompute 1, .apply 1, .wake 1, .resume 2, .lock 2 0, .die 3]

theorem priority_inheritance_handOver : ∃ s, Steps (Guarded step fun s label =>
        WithinLimit s label ∧ Inherits s label) initial handOver s ∧
      Quiescent s ∧ (s.mutex 0).owner = some 2 ∧ (s.thread 1).map Thread.priority = some 3 ∧
      (s.thread 3).map Thread.dead = some true ∧ Inherited s := by
  have followed : (followRun (checked exec plainCheck) initial handOver).map
      (fun s => (quietCheck s, (s.mutex 0).owner, (s.thread 1).map Thread.priority, (s.thread 3).map Thread.dead)) =
      some (true, some 2, some 3, some true) := by
    decide +kernel
  obtain ⟨s, steps, seen⟩ := Steps.guarded_of_followed plainCheck_sound followed
  simp only [Prod.mk.injEq] at seen
  obtain ⟨passed, owner, reset, dead⟩ := seen
  have quiet := quietCheck_sound passed
  exact ⟨s, steps, quiet, owner, reset, dead, priority_inheritance steps quiet⟩

/-- Threads of priorities 2 and 1 wait for one of priority 3, which unlocks: the
first waiter takes the mutex, and the second one, more urgent, stays. -/
def twoWaiters : List Label :=
  [.spawn 1 3, .spawn 2 2, .spawn 3 1, .lock 1 0, .lock 2 0, .register 2, .boost 2, .lock 3 0,
    .register 3, .boost 3, .unlock 1 0, .recompute 1, .apply 1, .wake 1, .resume 2, .lock 2 0]

/-- A test that is enough for `WithinLimit`. -/
def limitCheck (s : State) : Label → Bool
  | .lock t _ => (s.thread t).all fun th =>
    decide (th.owned.length < maxOwnedMutexes)
  | .trylock _ _ => false
  | _ => true

theorem limitCheck_sound (passed : limitCheck s label = true) : WithinLimit s label := by
  cases label with
  | lock =>
    intro th found _
    simpa [limitCheck, found] using passed
  | trylock => cases passed
  | _ => trivial

/-- The new owner inherits nothing from the threads that wait already. -/
theorem priority_inheritance_twoWaiters : ¬ ∀ labels s, Steps
    (Guarded step WithinLimit) initial labels s → Quiescent s → Inherited s := by
  intro claimed
  have followed : (followRun (checked exec limitCheck) initial twoWaiters).map
      (fun s => (quietCheck s, (s.mutex 0).owner, (s.mutex 0).waiters, (s.thread 2).map Thread.priority,
          (s.thread 3).map Thread.priority)) =
      some (true, some 2, [3], some 2, some 1) := by
    decide +kernel
  obtain ⟨s, steps, seen⟩ := Steps.guarded_of_followed limitCheck_sound followed
  simp only [Prod.mk.injEq] at seen
  obtain ⟨quiet, owns, queue, ownerPriority, waiterPriority⟩ := seen
  obtain ⟨owner, ownerAt, ownerIs⟩ := map_eq_some_iff.mp ownerPriority
  obtain ⟨waiter, waiterAt, waiterIs⟩ := map_eq_some_iff.mp waiterPriority
  have urgent := (claimed twoWaiters s steps (quietCheck_sound quiet)).urgent
    0 2 3 owner waiter owns (by rw [queue]; exact .head _) ownerAt waiterAt
  rw [ownerIs, waiterIs] at urgent
  exact absurd urgent (by decide)

end Runs

end MainDob.Kernel.Mutexes
