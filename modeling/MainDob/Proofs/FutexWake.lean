/-
Purpose: Which threads a futex wake takes out of its bucket, and what becomes
  of them.
Main exports: Shape, Waiting, futex_wake_precise
-/
import MainDob.Kernel.Futex
import Mathlib.Data.Fintype.Card

namespace MainDob.Kernel.Futex

open Function (update update_of_ne update_self)
open Lib
open Option
open List

/-- A thread that a wake has taken out and that its closing loop has not
reached yet. -/
def InWalk (s : State) (u : Tid) : Prop :=
  ∃ t walk, s.walks t = some walk ∧ u ∈ walk.rest

/-- The buckets and the walks are well-formed lists, no thread is in two of
them, and every sleeping thread is in one. -/
structure Shape (s : State) (queues : Nat → List Tid) : Prop where
  isQueue : ∀ b, IsQueue s.next (s.buckets b) (queues b)
  distinct : ∀ b, (queues b).Nodup
  queued : ∀ u b, u ∈ queues b ↔ s.blockedOn u = some b
  linked : ∀ {t walk}, s.walks t = some walk → Seg s.next walk.rest none
  current : ∀ {t walk}, s.walks t = some walk → walk.cur = walk.rest.head?
  walkDistinct : ∀ {t walk}, s.walks t = some walk → walk.rest.Nodup
  loose : ∀ {u}, InWalk s u → s.blockedOn u = none
  apart : ∀ {t t' walk walk' u}, s.walks t = some walk →
    s.walks t' = some walk' → u ∈ walk.rest → u ∈ walk'.rest → t = t'
  asleep : ∀ {u b}, s.blockedOn u = some b →
    s.status u = .blocked ∧ b = bucketFor (s.owner u) (s.addr u) ∧ s.addr u % 4 = 0
  accounted : ∀ {u}, s.status u = .blocked → (s.blockedOn u).isSome ∨ InWalk s u

theorem initial_shape (owner : Tid → Nat) : Shape (initial owner) fun _ => [] where
  isQueue := fun _ => ⟨trivial, rfl, rfl⟩
  distinct := fun _ => nodup_nil
  queued := fun _ _ => ⟨fun member => (nomatch member), nofun⟩
  linked := nofun
  current := nofun
  walkDistinct := nofun
  loose := by rintro u ⟨t, walk, none, _⟩; cases none
  apart := nofun
  asleep := nofun
  accounted := nofun

variable {t : Tid} {s' : State}

section Steps

variable {s : State} {queues : Nat → List Tid}

theorem length_lt_rounds {list : List Tid} (distinct : list.Nodup) : list.length < rounds := by
  have bound := distinct.length_le_card
  rw [Fintype.card_fin] at bound
  exact Nat.lt_succ_of_le bound

variable {b : Nat}

theorem Shape.kept (shape : Shape s queues) {next' : Tid → Option Tid}
    (frame : ∀ u, s.blockedOn u = some b → next' u = s.next u) :
    IsQueue next' (s.buckets b) (queues b) := by
  have isQueue := shape.isQueue b
  refine ⟨isQueue.linked.congr ?_, isQueue.head, isQueue.tail⟩
  intro u member
  exact frame u ((shape.queued u b).mp member)

variable {queue' : Queue Tid} {list' : List Tid}

section

variable (shape : Shape s queues)
include shape

theorem Shape.updated {next' : Tid → Option Tid} (here : IsQueue next' queue' list')
    (frame : ∀ u c, c ≠ b → s.blockedOn u = some c → next' u = s.next u) :
    ∀ c, IsQueue next' (update s.buckets b queue' c) (update queues b list' c) := by
  intro c
  by_cases same : c = b
  · subst same
    rw [update_self, update_self]
    exact here
  · rw [update_of_ne same, update_of_ne same]
    exact shape.kept fun u => frame u c same

theorem Shape.updated_distinct (distinct : list'.Nodup) :

    ∀ c, (update queues b list' c).Nodup := by
  intro c
  by_cases same : c = b
  · subst same
    rwa [update_self]
  · rw [update_of_ne same]
    exact shape.distinct c

theorem Shape.running_loose (running : s.status t = .running) : s.blockedOn t = none := by
  rcases blocked : s.blockedOn t with _ | b
  · rfl
  have asleep := (shape.asleep blocked).1
  rw [running] at asleep
  cases asleep

/-- A running thread is in no queue, and may join any. -/
theorem Shape.tail_fresh (running : s.status t = .running) (b : Nat) :
    t ∉ queues b ∧ (queues b ++ [t]).Nodup := by
  have absent : t ∉ queues b := by
    rw [shape.queued, shape.running_loose running]
    exact nofun
  refine ⟨absent, nodup_append.mpr ⟨shape.distinct b, nodup_singleton t, ?_⟩⟩
  rintro u inQueue v inSingle rfl
  exact absent (mem_singleton.mp inSingle ▸ inQueue)

theorem Shape.unblocked (free : s.blockedOn t = none) : Shape (schedulerUnblock s t) queues where
  isQueue := shape.isQueue
  distinct := shape.distinct
  queued := shape.queued
  linked := shape.linked
  current := shape.current
  walkDistinct := shape.walkDistinct
  loose := shape.loose
  apart := shape.apart
  asleep := by
    intro u b blocked
    have different : u ≠ t := by
      rintro rfl
      rw [show s.blockedOn u = some b from blocked] at free
      cases free
    obtain ⟨asleep, bucket⟩ := shape.asleep blocked
    refine ⟨?_, bucket⟩
    simp only [schedulerUnblock, update_of_ne different]
    exact asleep
  accounted := by
    intro u blocked
    have before : s.status u = .blocked := by
      by_cases same : u = t
      · subst same
        simp only [schedulerUnblock, update_self] at blocked
        split at blocked
        · cases blocked
        · exact blocked
      · simpa only [schedulerUnblock, update_of_ne same] using blocked
    exact shape.accounted before

theorem Shape.rebucketed (here : IsQueue s'.next queue' list')
    (distinct : list'.Nodup) (buckets : s'.buckets = update s.buckets b queue')
    (member : ∀ u, u ∈ list' ↔ s'.blockedOn u = some b)
    (others : ∀ u c, c ≠ b → (s'.blockedOn u = some c ↔ s.blockedOn u = some c)) (frame : ∀ u, u ∉
    list' → (∃ c, c ≠ b ∧ s.blockedOn u = some c) ∨ InWalk s u → s'.next u = s.next u)
      (walks : s'.walks = s.walks) (loose : ∀ u, InWalk s u → s'.blockedOn u = none)
    (asleep : ∀ u c, s'.blockedOn u = some c → s'.status u = .blocked ∧ c = bucketFor
      (s'.owner u) (s'.addr u) ∧ s'.addr u % 4 = 0) (accounted : ∀ u, s'.status u = .blocked →
    (s'.blockedOn u).isSome ∨ InWalk s u) : Shape s' (update queues b list') where
  isQueue := by
    rw [buckets]
    refine shape.updated here ?_
    intro u c different blocked
    refine frame u ?_ (.inl ⟨c, different, blocked⟩)
    intro inList
    have there := (others u c different).mpr blocked
    rw [(member u).mp inList] at there
    exact different (Option.some.inj there).symm
  distinct := shape.updated_distinct distinct
  queued := by
    intro u c
    by_cases same : c = b
    · subst same
      rw [update_self]
      exact member u
    · rw [update_of_ne same, others u c same]
      exact shape.queued u c
  linked := by
    intro t walk found
    rw [walks] at found
    refine (shape.linked found).congr ?_
    intro u inRest
    have inWalk : InWalk s u := ⟨t, walk, found, inRest⟩
    refine frame u ?_ (.inr inWalk)
    intro inList
    have blocked := (member u).mp inList
    rw [loose u inWalk] at blocked
    cases blocked
  current := by
    intro t walk found
    rw [walks] at found
    exact shape.current found
  walkDistinct := by
    intro t walk found
    rw [walks] at found
    exact shape.walkDistinct found
  loose := by
    rintro u ⟨t, walk, found, inRest⟩
    rw [walks] at found
    exact loose u ⟨t, walk, found, inRest⟩
  apart := by
    intro t t' walk walk' u found found'
    rw [walks] at found found'
    exact shape.apart found found'
  asleep := fun {u c} => asleep u c
  accounted := by
    intro u blocked
    rcases accounted u blocked with isBlocked | ⟨t, walk, found, inRest⟩
    · exact .inl isBlocked
    · rw [← walks] at found
      exact .inr ⟨t, walk, found, inRest⟩

theorem Shape.slept (running : s.status t = .running) (free : ¬ InWalk s t)
    (uaddr : Nat) (aligned : uaddr % 4 = 0) (timer' : Tid → Bool) (result' : Tid → WaitResult) :
    Shape { s with
        next := (enqueueTail s.next (s.buckets (bucketFor (s.owner t) uaddr)) t).1
        buckets := update s.buckets (bucketFor (s.owner t) uaddr)
          (enqueueTail s.next (s.buckets (bucketFor (s.owner t) uaddr)) t).2
        blockedOn := update s.blockedOn t (some (bucketFor (s.owner t) uaddr))
        result := result'
        status := update s.status t .blocked
        timer := timer'
        addr := update s.addr t uaddr }
      (update queues (bucketFor (s.owner t) uaddr)
        (queues (bucketFor (s.owner t) uaddr) ++ [t])) := by
  generalize bucket : bucketFor (s.owner t) uaddr = b
  have notBlocked := shape.running_loose running
  obtain ⟨absent, longer⟩ := shape.tail_fresh running b
  obtain ⟨appended, frame⟩ := enqueueTail_spec (shape.isQueue b) (shape.distinct b) absent
  refine shape.rebucketed appended longer rfl ?_ ?_ ?_ rfl ?_ ?_ ?_
  · intro u
    by_cases same : u = t
    · subst same
      simp
    · simp [same, shape.queued]
  · intro u c different
    by_cases same : u = t
    · subst same
      simp [notBlocked, Ne.symm different]
    · simp [same]
  · intro u notInList _
    rw [mem_append, not_or, mem_singleton] at notInList
    exact frame u notInList.1 notInList.2
  · intro u inWalk
    have different : u ≠ t := fun same => free (same ▸ inWalk)
    simp only [update_of_ne different]
    exact shape.loose inWalk
  · intro u c blocked
    by_cases same : u = t
    · subst same
      simp only [update_self, Option.some.injEq] at blocked
      simp [← blocked, bucket, aligned]
    · simp only [update_of_ne same] at blocked ⊢
      exact shape.asleep blocked
  · intro u blocked
    by_cases same : u = t
    · subst same
      exact .inl (by simp)
    · simp only [update_of_ne same] at blocked ⊢
      exact shape.accounted blocked

theorem Shape.unlinked (here : IsQueue s'.next queue' ((queues b).erase t))
    (frame : ∀ u, u ∉ queues b → u ≠ t → s'.next u = s.next u) (free : ¬ InWalk s t)
    (buckets : s'.buckets = update s.buckets b queue') (was : s.blockedOn t = none ∨
    s.blockedOn t = some b) (blockedOn : s'.blockedOn = update s.blockedOn t none)
    (walks : s'.walks = s.walks) (owner : s'.owner = s.owner)
    (addr : ∀ u, u ≠ t → s'.addr u = s.addr u) (status : ∀ u, u ≠ t → s'.status u = s.status u)
    (awake : s'.status t ≠ .blocked) : Shape s' (update queues b ((queues b).erase t)) := by
  have distinct := shape.distinct b
  refine shape.rebucketed here (distinct.erase t) buckets ?_ ?_ ?_ walks ?_ ?_ ?_
  · intro u
    rw [blockedOn, distinct.mem_erase_iff, shape.queued]
    by_cases same : u = t
    · subst same
      simp
    · simp [same]
  · intro u c different
    rw [blockedOn]
    by_cases same : u = t
    · subst same
      rcases was with none | there
      · simp [none]
      · simp [there, Ne.symm different]
    · rw [update_of_ne same]
  · intro u _ elsewhere
    refine frame u ?_ ?_
    · rw [shape.queued]
      rcases elsewhere with ⟨c, different, there⟩ | inWalk
      · rw [there]
        exact fun same => different (Option.some.inj same)
      · rw [shape.loose inWalk]
        exact nofun
    · rintro rfl
      rcases elsewhere with ⟨c, different, there⟩ | inWalk
      · rw [there] at was
        rcases was with none | same
        · cases none
        · exact different (Option.some.inj same)
      · exact free inWalk
  · intro u inWalk
    rw [blockedOn]
    have different : u ≠ t := fun same => free (same ▸ inWalk)
    rw [update_of_ne different]
    exact shape.loose inWalk
  · intro u c blocked
    rw [blockedOn] at blocked
    by_cases same : u = t
    · subst same
      rw [update_self] at blocked
      cases blocked
    · rw [update_of_ne same] at blocked
      rw [status u same, owner, addr u same]
      exact shape.asleep blocked
  · intro u blocked
    have different : u ≠ t := by
      rintro rfl
      exact awake blocked
    rw [status u different] at blocked
    rw [blockedOn, update_of_ne different]
    exact shape.accounted blocked

theorem futexWait_shape (running : s.status t = .running) (free : ¬ InWalk s t)
    (uaddr val timeoutMs : Nat) (word : Option Nat) (armed : Bool) : ∃ s' code queues',
    futexWait s t uaddr val timeoutMs word armed = some (s', code) ∧ Shape s' queues' := by
  unfold futexWait
  split
  · exact ⟨s, _, queues, rfl, shape⟩
  next aligned =>
  rw [Decidable.not_not] at aligned
  cases word with
  | none => exact ⟨s, _, queues, rfl, shape⟩
  | some =>
    dsimp only
    split
    · exact ⟨s, _, queues, rfl, shape⟩
    split
    · -- the timer heap is full: what was queued is unlinked again
      generalize bucketFor (s.owner t) uaddr = b
      have notBlocked := shape.running_loose running
      obtain ⟨absent, longer⟩ := shape.tail_fresh running b
      obtain ⟨appended, frame⟩ := enqueueTail_spec (shape.isQueue b) (shape.distinct b) absent
      obtain ⟨next', queue', result, isQueue', _, frame'⟩ :=
        unlink_spec t appended longer (length_lt_rounds longer)
      have same : (queues b ++ [t]).erase t = (queues b).erase t := by
        rw [erase_append_right _ absent, erase_of_not_mem absent]
        simp
      rw [same] at isQueue'
      have found : decide (t ∈ queues b ++ [t]) = true := by simp
      rw [found] at result
      rw [result]
      refine ⟨_, _, _, rfl, shape.unlinked isQueue' ?_ free rfl
        (.inl notBlocked) rfl rfl rfl ?_ ?_ ?_⟩
      · intro u notInQueue different
        have notInLonger : u ∉ queues b ++ [t] := by simp [notInQueue, different]
        exact (frame' u notInLonger).trans (frame u notInQueue different)
      · intro u different
        exact update_of_ne different _ _
      · intro u different
        exact update_of_ne different _ _
      · simp
    · exact ⟨_, _, _, rfl, shape.slept running free uaddr aligned _ _⟩

theorem timerExpire_shape (expired : timerExpire s t = some s') : ∃ queues', Shape s' queues' := by
  unfold timerExpire at expired
  split at expired
  · rcases blocked : s.blockedOn t with _ | b
    · rw [blocked] at expired
      cases expired
      have silent : Shape { s with
          expiring := update s.expiring t false
          result := update s.result t .timeout } queues :=
        { shape with }
      exact ⟨queues, silent.unblocked blocked⟩
    rw [blocked] at expired
    have present : t ∈ queues b := (shape.queued t b).mpr blocked
    have free : ¬ InWalk s t := by
      intro inWalk
      rw [shape.loose inWalk] at blocked
      cases blocked
    obtain ⟨next', queue', result, isQueue', _, frame⟩ :=
      unlink_spec t (shape.isQueue b) (shape.distinct b) (length_lt_rounds (shape.distinct b))
    rw [decide_eq_true present] at result
    dsimp only at expired
    rw [result] at expired
    cases expired
    refine ⟨_, shape.unlinked isQueue' ?_ free rfl (.inr blocked) rfl rfl rfl ?_ ?_ ?_⟩
    · intro u notInQueue _
      exact frame u notInQueue
    · intro u _
      rfl
    · intro u different
      exact update_of_ne different _ _
    · simp only [schedulerUnblock, update_self]
      split
      · nofun
      · assumption
  · cases expired

theorem timerFire_shape (fired : timerFire s t = some s') : Shape s' queues := by
  unfold timerFire at fired
  split at fired
  · rcases blocked : s.blockedOn t with _ | b
    · rw [blocked] at fired
      cases fired
      have silent : Shape { s with timer := update s.timer t false } queues := { shape with }
      exact silent.unblocked blocked
    · rw [blocked] at fired
      cases fired
      exact { shape with }
  · cases fired

end

theorem walks_update_cases {walks : Tid → Option Walk} {waker : Tid}
    {new walk : Walk} (found : update walks t (some new) waker = some walk) :
    (waker = t ∧ walk = new) ∨ (waker ≠ t ∧ walks waker = some walk) := by
  by_cases same : waker = t
  · subst same
    rw [update_self] at found
    exact .inl ⟨rfl, (Option.some.inj found).symm⟩
  · rw [update_of_ne same] at found
    exact .inr ⟨same, found⟩

/-- The threads that a wake takes out of a bucket. -/
def takenBy (s : State) (queues : Nat → List Tid) (process uaddr count : Nat) :
    List Tid :=
  ((queues (bucketFor process uaddr)).filter fun u => s.owner u == process).take count

/-- A wake: the walk over the bucket ends, it takes the first threads of the
caller's process out, and it keeps the shape. -/
theorem futexWake_shape (shape : Shape s queues) (noWalk : s.walks t = none)
    (uaddr count : Nat) (aligned : uaddr % 4 = 0) :
    ∃ s', futexWake s t uaddr count = some (s', (takenBy s queues (s.owner t) uaddr count).length) ∧
      (∀ u, s'.blockedOn u = if u ∈ takenBy s queues (s.owner t) uaddr count then none
        else s.blockedOn u) ∧
      s'.walks = update s.walks t (some ⟨(takenBy s queues (s.owner t) uaddr count).head?,
          takenBy s queues (s.owner t) uaddr count⟩) ∧ s'.status = s.status ∧
      s'.owner = s.owner ∧ s'.addr = s.addr ∧ ∃ queues', Shape s' queues' := by
  unfold takenBy futexWake
  rw [if_neg (by simpa using aligned)]
  dsimp only
  generalize bucket : bucketFor (s.owner t) uaddr = b
  have distinct := shape.distinct b
  let pick := fun u => s.owner u == s.owner t
  obtain ⟨next', queue', chain', result, isQueue', isChain', frame⟩ :=
    extract_spec pick count (shape.isQueue b) distinct (length_lt_rounds distinct)
  have takenDistinct : (((queues b).filter pick).take count).Nodup :=
    (distinct.filter pick).sublist (take_sublist _ _)
  have trailEq : trail next' rounds chain'.head = ((queues b).filter pick).take count := by
    rw [isChain'.head]
    exact trail_of_seg isChain'.linked (le_of_lt (length_lt_rounds takenDistinct))
  rw [result]
  dsimp only
  rw [trailEq, isChain'.head]
  generalize takenEq : ((queues b).filter pick).take count = taken at *
  have takenQueued : ∀ u, u ∈ taken → s.blockedOn u = some b := by
    intro u member
    rw [← takenEq] at member
    exact (shape.queued u b).mp (mem_of_mem_filter (mem_of_mem_take member))
  have keptMember : ∀ u, u ∈ keepRest pick count (queues b) ↔ u ∈ queues b ∧ u ∉ taken := by
    intro u
    rw [mem_keepRest distinct, takenEq]
  have oldWalk : ∀ {u}, InWalk s u → u ∉ queues b := by
    intro u inWalk
    rw [shape.queued, shape.loose inWalk]
    exact nofun
  refine ⟨_, rfl, fun u => rfl, rfl, rfl, rfl, rfl,
    update queues b (keepRest pick count (queues b)), ?_⟩
  constructor
  case isQueue =>
    refine shape.updated isQueue' ?_
    intro u c different blocked
    refine frame u ?_
    rw [shape.queued, blocked]
    exact fun same => different (Option.some.inj same)
  case distinct => exact shape.updated_distinct (distinct.sublist (keepRest_sublist _ _))
  case queued =>
    intro u c
    by_cases same : c = b
    · subst same
      rw [update_self, keptMember u, shape.queued]
      by_cases out : u ∈ taken <;> simp [out]
    · rw [update_of_ne same, shape.queued]
      by_cases out : u ∈ taken
      · simp [out, takenQueued u out, Ne.symm same]
      · simp [out]
  case linked =>
    intro waker walk found
    rcases walks_update_cases found with ⟨_, rfl⟩ | ⟨_, old⟩
    · exact isChain'.linked
    refine (shape.linked old).congr ?_
    intro u member
    exact frame u (oldWalk ⟨waker, walk, old, member⟩)
  case current =>
    intro waker walk found
    rcases walks_update_cases found with ⟨_, rfl⟩ | ⟨_, old⟩
    · rfl
    · exact shape.current old
  case walkDistinct =>
    intro waker walk found
    rcases walks_update_cases found with ⟨_, rfl⟩ | ⟨_, old⟩
    · exact takenDistinct
    · exact shape.walkDistinct old
  case loose =>
    rintro _ ⟨waker, walk, found, member⟩
    rcases walks_update_cases found with ⟨_, rfl⟩ | ⟨_, old⟩
    · exact if_pos member
    · have free := shape.loose ⟨waker, walk, old, member⟩
      simp [free]
  case apart =>
    intro waker waker' walk walk' u found found' member member'
    rcases walks_update_cases found with ⟨new, rfl⟩ | ⟨_, old⟩
    · rcases walks_update_cases found' with ⟨new', _⟩ | ⟨_, old'⟩
      · rw [new, new']
      have blocked := takenQueued u member
      rw [shape.loose ⟨waker', walk', old', member'⟩] at blocked
      cases blocked
    · rcases walks_update_cases found' with ⟨_, rfl⟩ | ⟨_, old'⟩
      · have blocked := takenQueued u member'
        rw [shape.loose ⟨waker, walk, old, member⟩] at blocked
        cases blocked
      · exact shape.apart old old' member member'
  case asleep =>
    intro u c blocked
    by_cases out : u ∈ taken
    · simp only [out, if_true] at blocked
      cases blocked
    · simp only [out, if_false] at blocked
      exact shape.asleep blocked
  case accounted =>
    intro u blocked
    by_cases out : u ∈ taken
    · exact .inr ⟨t, _, update_self .., out⟩
    simp only [out, if_false]
    rcases shape.accounted blocked with isBlocked | ⟨w, walk, found, member⟩
    · exact .inl isBlocked
    refine .inr ⟨w, walk, ?_, member⟩
    have different : w ≠ t := by
      rintro rfl
      rw [noWalk] at found
      cases found
    exact (update_of_ne different _ _).trans found

/-- One round of a closing loop: the walk is over, or its first thread is
unblocked and the rest of the walk stands. -/
theorem unblockNext_shape (shape : Shape s queues) {t : Tid} {walk : Walk}
    (found : s.walks t = some walk) :
    ∃ s', unblockNext s t = some s' ∧ Shape s' queues ∧ match walk.rest with
      | [] => s'.walks t = none
      | u :: rest =>
        s'.status u ≠ .blocked ∧ s'.walks t = some ⟨rest.head?, rest⟩ := by
  obtain ⟨cur, rest⟩ := walk
  have current : cur = rest.head? := shape.current found
  have linked : Seg s.next rest none := shape.linked found
  have distinct : rest.Nodup := shape.walkDistinct found
  subst current
  unfold unblockNext
  rw [found]
  cases rest with
  | nil =>
    refine ⟨_, rfl, ?_, update_self ..⟩
    have old : ∀ {waker walk}, update s.walks t none waker =
        some walk → s.walks waker = some walk := by
      intro waker walk foundNew
      by_cases same : waker = t
      · subst same
        rw [update_self] at foundNew
        cases foundNew
      · rwa [update_of_ne same] at foundNew
    exact {
      isQueue := shape.isQueue
      distinct := shape.distinct
      queued := shape.queued
      linked := fun found => shape.linked (old found)
      current := fun found => shape.current (old found)
      walkDistinct := fun found => shape.walkDistinct (old found)
      loose := fun ⟨waker, walk, found, member⟩ => shape.loose ⟨waker, walk, old found, member⟩
      apart := fun found found' => shape.apart (old found) (old found')
      asleep := shape.asleep
      accounted := by
        intro v blocked
        rcases shape.accounted blocked with inBucket | inWalk
        · exact .inl inBucket
        obtain ⟨waker, walk, foundOld, member⟩ := inWalk
        have different : waker ≠ t := by
          rintro rfl
          rw [found] at foundOld
          cases foundOld
          cases member
        exact .inr ⟨waker, walk, (update_of_ne different _ _).trans foundOld, member⟩ }
  | cons u rest =>
    have link : s.next u = rest.head? := by rw [linked.1, or_none]
    have notInRest : u ∉ rest := (nodup_cons.mp distinct).1
    have uLoose : s.blockedOn u = none := shape.loose ⟨t, _, found, mem_cons_self⟩
    have awake : (schedulerUnblock { s with
        next := update s.next u none
        walks := update s.walks t (some ⟨s.next u, (u :: rest).erase u⟩) } u).status u ≠
        .blocked := by
      simp only [schedulerUnblock, update_self]
      split
      · nofun
      · assumption
    refine ⟨_, rfl, ?_, awake, ?_⟩
    · rw [link, erase_cons_head] at awake ⊢
      constructor
      case isQueue =>
        intro b
        refine shape.kept ?_
        intro v blocked
        refine update_of_ne ?_ _ _
        rintro rfl
        rw [uLoose] at blocked
        cases blocked
      case distinct => exact shape.distinct
      case queued => exact shape.queued
      case linked =>
        intro waker walk foundNew
        rcases walks_update_cases foundNew with ⟨_, rfl⟩ | ⟨different, old⟩
        · exact linked.2.update_of_not_mem notInRest
        refine (shape.linked old).update_of_not_mem ?_
        intro member
        exact different (shape.apart old found member mem_cons_self)
      case current =>
        intro waker walk foundNew
        rcases walks_update_cases foundNew with ⟨_, rfl⟩ | ⟨_, old⟩
        · rfl
        · exact shape.current old
      case walkDistinct =>
        intro waker walk foundNew
        rcases walks_update_cases foundNew with ⟨_, rfl⟩ | ⟨_, old⟩
        · exact (nodup_cons.mp distinct).2
        · exact shape.walkDistinct old
      case loose =>
        rintro _ ⟨waker, walk, foundNew, member⟩
        rcases walks_update_cases foundNew with ⟨_, rfl⟩ | ⟨_, old⟩
        · exact shape.loose ⟨t, _, found, mem_cons_of_mem u member⟩
        · exact shape.loose ⟨waker, walk, old, member⟩
      case apart =>
        intro waker waker' walk walk' v foundNew foundNew' member member'
        have origin : ∀ {w : Tid} {walk : Walk}, update s.walks t (some ⟨rest.head?, rest⟩) w =
              some walk → v ∈ walk.rest → ∃ old, s.walks w = some old ∧ v ∈ old.rest := by
          intro w walk foundNew member
          rcases walks_update_cases foundNew with ⟨rfl, rfl⟩ | ⟨_, old⟩
          · exact ⟨_, found, mem_cons_of_mem u member⟩
          · exact ⟨walk, old, member⟩
        obtain ⟨_, old, oldMember⟩ := origin foundNew member
        obtain ⟨_, old', oldMember'⟩ := origin foundNew' member'
        exact shape.apart old old' oldMember oldMember'
      case asleep =>
        intro v b blocked
        have different : v ≠ u := by
          rintro rfl
          rw [show s.blockedOn v = some b from blocked] at uLoose
          cases uLoose
        obtain ⟨asleep, bucket⟩ := shape.asleep blocked
        exact ⟨(update_of_ne different _ _).trans asleep, bucket⟩
      case accounted =>
        intro v blocked
        have different : v ≠ u := by
          rintro rfl
          exact awake blocked
        have before : s.status v = .blocked := (update_of_ne different _ _).symm.trans blocked
        rcases shape.accounted before with inBucket | inWalk
        · exact .inl inBucket
        obtain ⟨waker, walk, old, member⟩ := inWalk
        by_cases same : waker = t
        · subst same
          rw [found] at old
          cases old
          exact .inr ⟨waker, _, update_self .., (mem_cons.mp member).resolve_left different⟩
        · exact .inr ⟨waker, walk, (update_of_ne same _ _).trans old, member⟩
    · rw [link, erase_cons_head]
      exact update_self ..

end Steps

/-! ### Runs -/

/-- A thread that a wake has taken out does not enter another wait before the
wake's closing loop has reached it. -/
def Undisturbed (s : State) : Label → Prop
  | .wait t _ _ _ _ _ => ¬ InWalk s t
  | _ => True

/-- A state between futex calls as the buckets' links describe it. -/
def Shaped (s : State) : Prop := ∃ queues, Shape s queues

theorem step_shaped {first last : State} {label : Label} (shaped : Shaped first)
    (taken : Guarded step Undisturbed first label last) : Shaped last := by
  obtain ⟨queues, shape⟩ := shaped
  obtain ⟨taken, guard⟩ := taken
  unfold step at taken
  cases label with
  | wait _ uaddr val timeoutMs word armed =>
    simp only [exec] at taken
    split at taken
    · next idle =>
      obtain ⟨_, _, queues', result, shape'⟩ :=
        futexWait_shape shape idle.1 guard uaddr val timeoutMs word armed
      rw [result] at taken
      cases taken
      exact ⟨queues', shape'⟩
    · cases taken
  | wake _ uaddr count =>
    simp only [exec] at taken
    split at taken
    · next idle =>
      by_cases aligned : uaddr % 4 = 0
      · obtain ⟨_, result, _, _, _, _, _, shape'⟩ :=
          futexWake_shape shape idle.2 uaddr count aligned
        rw [result] at taken
        cases taken
        exact shape'
      · rw [futexWake, if_pos aligned] at taken
        cases taken
        exact ⟨queues, shape⟩
    · cases taken
  | unblock t =>
    simp only [exec] at taken
    rcases found : first.walks t with _ | walk
    · rw [unblockNext, found] at taken
      cases taken
    · obtain ⟨_, result, shape', _⟩ := unblockNext_shape shape found
      rw [result] at taken
      cases taken
      exact ⟨queues, shape'⟩
  | fire => exact ⟨queues, timerFire_shape shape taken⟩
  | expire => exact timerExpire_shape shape taken
  | resume t =>
    simp only [exec] at taken
    split at taken
    · next ready =>
      cases taken
      refine ⟨queues, { shape with asleep := ?_, accounted := ?_ }⟩
      · intro u b blocked
        obtain ⟨asleep, bucket⟩ := shape.asleep blocked
        have different : u ≠ t := by
          rintro rfl
          rw [ready] at asleep
          cases asleep
        exact ⟨(update_of_ne different _ _).trans asleep, bucket⟩
      · intro u blocked
        have different : u ≠ t := by
          rintro rfl
          simp only [update_self] at blocked
          cases blocked
        exact shape.accounted ((update_of_ne different _ _).symm.trans blocked)
    · cases taken

theorem reachable_shaped {owner : Tid → Nat} {labels : List Label} {s : State}
    (run : Steps (Guarded step Undisturbed) (initial owner) labels s) : Shaped s :=
  run.invariant (fun _ _ _ shaped taken => step_shaped shaped taken) ⟨_, initial_shape owner⟩

/-! ### What a wake does -/

/-- Thread `u` of the process waits on the address. -/
def Waiting (s : State) (process uaddr : Nat) (u : Tid) : Prop :=
  s.owner u = process ∧ s.addr u = uaddr ∧ (s.blockedOn u).isSome

instance (s : State) (process uaddr : Nat) (u : Tid) : Decidable (Waiting s process uaddr u) :=
  inferInstanceAs (Decidable (_ ∧ _ ∧ _))

/-- The threads of the process that wait on the address. -/
def waiters (s : State) (process uaddr : Nat) : Finset Tid :=
  Finset.univ.filter (Waiting s process uaddr)

/-- The threads that have left their bucket between two states. -/
def removed (s s' : State) : Finset Tid :=
  Finset.univ.filter fun u => (s.blockedOn u).isSome ∧ s'.blockedOn u = none

/-- The wake of the claim: it returns, the threads that leave a bucket are as
many as it says, all of them wait on the address, they are the threads its
closing loop is to unblock, and every other waiter stays where it was. -/
def WakePrecise (s : State) (t : Tid) (uaddr count : Nat) : Prop :=
  ∃ s' woken, futexWake s t uaddr count = some (s', woken) ∧ woken = min count
    (waiters s (s.owner t) uaddr).card ∧ (removed s s').card = woken ∧ removed s s' ⊆ waiters s
    (s.owner t) uaddr ∧ (∀ u, u ∈ removed s s' ↔ ∃ walk, s'.walks t = some walk ∧ u ∈ walk.rest) ∧
    ∀ u, u ∉ removed s s' → s'.blockedOn u = s.blockedOn u

/-- The first `count` threads of the process in the bucket of the address, in
the order of its links. -/
def firstInBucket (s : State) (process uaddr count : Nat) : List Tid :=
  ((trail s.next rounds (s.buckets (bucketFor process uaddr)).head).filter
    fun u => s.owner u == process).take count

/-- No thread of the process that waits on another address of the bucket is
among the first `count`. -/
def Unmixed (s : State) (process uaddr count : Nat) : Prop :=
  ∀ u ∈ firstInBucket s process uaddr count, s.addr u = uaddr

theorem firstInBucket_eq {s : State} {queues : Nat → List Tid}
    (shape : Shape s queues) (process uaddr count : Nat) :
    firstInBucket s process uaddr count = takenBy s queues process uaddr count := by
  generalize bucket : bucketFor process uaddr = b
  have isQueue := shape.isQueue b
  have whole : trail s.next rounds (s.buckets b).head = queues b := by
    rw [isQueue.head]
    exact trail_of_seg isQueue.linked (le_of_lt (length_lt_rounds (shape.distinct b)))
  rw [firstInBucket, takenBy, bucket, whole]

variable {process uaddr : Nat}

section

variable {s : State} {queues : Nat → List Tid} (shape : Shape s queues)
include shape

theorem waiting_in_bucket {u : Tid} (waiting : Waiting s process uaddr u) :
    u ∈ (queues (bucketFor process uaddr)).filter fun v => s.owner v == process := by
  obtain ⟨owned, onAddr, inBucket⟩ := waiting
  obtain ⟨b, blocked⟩ := isSome_iff_exists.mp inBucket
  obtain ⟨_, bucket, _⟩ := shape.asleep blocked
  rw [owned, onAddr] at bucket
  subst bucket
  exact mem_filter.mpr ⟨(shape.queued u _).mpr blocked, by simp [owned]⟩

theorem takenBy_length {count : Nat}
    (unmixed : ∀ u ∈ takenBy s queues process uaddr count, s.addr u = uaddr) :
    (takenBy s queues process uaddr count).length = min count (waiters s process uaddr).card := by
  unfold takenBy at unmixed ⊢
  generalize ofProcess : (queues (bucketFor process uaddr)).filter
    (fun v => s.owner v == process) = candidates at *
  have distinct : candidates.Nodup := by
    rw [← ofProcess]
    exact (shape.distinct _).filter _
  have takenDistinct : (candidates.take count).Nodup := distinct.sublist (take_sublist _ _)
  have takenWait : (candidates.take count).toFinset ⊆
      waiters s process uaddr := by
    intro u member
    rw [List.mem_toFinset] at member
    have candidate := mem_of_mem_take member
    rw [← ofProcess, mem_filter] at candidate
    have blocked := (shape.queued u _).mp candidate.1
    refine Finset.mem_filter.mpr ⟨Finset.mem_univ u, ?_, unmixed u member, ?_⟩
    · simpa using candidate.2
    · rw [blocked]
      rfl
  have waitersCandidates : waiters s process uaddr ⊆ candidates.toFinset := by
    intro u member
    rw [List.mem_toFinset, ← ofProcess]
    exact waiting_in_bucket shape (Finset.mem_filter.mp member).2
  have least := Finset.card_le_card takenWait
  have most := Finset.card_le_card waitersCandidates
  rw [toFinset_card_of_nodup takenDistinct] at least
  rw [toFinset_card_of_nodup distinct] at most
  rw [length_take] at least ⊢
  omega

theorem waiters_unaligned (unaligned : uaddr % 4 ≠ 0) : waiters s process uaddr = ∅ := by
  refine Finset.filter_eq_empty_iff.mpr ?_
  rintro _ _ ⟨_, onAddr, inBucket⟩
  obtain ⟨_, blocked⟩ := isSome_iff_exists.mp inBucket
  have aligned := (shape.asleep blocked).2.2
  rw [onAddr] at aligned
  exact unaligned aligned

theorem removed_eq {count : Nat}
    (blockedOn : ∀ u, s'.blockedOn u = if u ∈ takenBy s queues process uaddr count then none
      else s.blockedOn u) : removed s s' = (takenBy s queues process uaddr count).toFinset := by
  ext u
  rw [removed, Finset.mem_filter, List.mem_toFinset, blockedOn]
  constructor
  · rintro ⟨_, inBucket, out⟩
    by_contra stays
    rw [if_neg stays] at out
    rw [out] at inBucket
    cases inBucket
  · intro member
    have queued := mem_of_mem_filter (mem_of_mem_take member)
    rw [(shape.queued u _).mp queued]
    exact ⟨Finset.mem_univ u, rfl, if_pos member⟩

end

theorem wakePrecise_iff {s : State} (shaped : Shaped s) (idle : Idle s t) (uaddr count : Nat) :
    WakePrecise s t uaddr count ↔ (uaddr % 4 = 0 → Unmixed s (s.owner t) uaddr count) := by
  obtain ⟨queues, shape⟩ := shaped
  by_cases aligned : uaddr % 4 = 0
  · obtain ⟨s', result, blockedOn, walks, -, -, -, -⟩ :=
      futexWake_shape shape idle.2 uaddr count aligned
    have removedEq := removed_eq shape blockedOn
    rw [Unmixed, firstInBucket_eq shape]
    generalize takenEq : takenBy s queues (s.owner t) uaddr count = taken at *
    constructor
    · rintro ⟨_, _, result', -, -, onlyWaiters, -, -⟩ _ u member
      rw [result] at result'
      cases result'
      have waits : u ∈ waiters s (s.owner t) uaddr := by
        refine onlyWaiters ?_
        rw [removedEq, List.mem_toFinset]
        exact member
      exact (Finset.mem_filter.mp waits).2.2.1
    intro unmixed
    have onAddr : ∀ u ∈ taken, s.addr u = uaddr := unmixed aligned
    have counted : taken.length = min count (waiters s (s.owner t) uaddr).card := by
      rw [← takenEq] at onAddr ⊢
      exact takenBy_length shape onAddr
    have inBucket : ∀ u ∈ taken,
        u ∈ queues (bucketFor (s.owner t) uaddr) ∧ s.owner u = s.owner t := by
      intro u member
      rw [← takenEq] at member
      have candidate := mem_filter.mp (mem_of_mem_take member)
      exact ⟨candidate.1, by simpa using candidate.2⟩
    have distinct : taken.Nodup := by
      rw [← takenEq]
      exact ((shape.distinct _).filter _).sublist (take_sublist _ _)
    refine ⟨s', taken.length, result, counted, ?_, ?_, ?_, ?_⟩
    · rw [removedEq, toFinset_card_of_nodup distinct]
    · intro u member
      rw [removedEq, List.mem_toFinset] at member
      obtain ⟨queued, owned⟩ := inBucket u member
      refine Finset.mem_filter.mpr ⟨Finset.mem_univ u, owned, onAddr u member, ?_⟩
      rw [(shape.queued u _).mp queued]
      rfl
    · intro u
      rw [removedEq, List.mem_toFinset, walks, update_self]
      constructor
      · intro member
        exact ⟨_, rfl, member⟩
      · rintro ⟨_, found, member⟩
        cases found
        exact member
    · intro u stays
      rw [removedEq, List.mem_toFinset] at stays
      rw [blockedOn, if_neg stays]
  · refine ⟨fun _ yes => absurd yes aligned, fun _ => ?_⟩
    have nobody : removed s s = ∅ := by
      refine Finset.filter_eq_empty_iff.mpr ?_
      rintro _ _ ⟨inBucket, out⟩
      rw [out] at inBucket
      cases inBucket
    refine ⟨s, 0, if_pos aligned, ?_, ?_, ?_, ?_, ?_⟩
    · rw [waiters_unaligned shape aligned, Finset.card_empty, Nat.min_zero]
    · rw [nobody, Finset.card_empty]
    · rw [nobody]
      exact Finset.empty_subset _
    · intro u
      rw [nobody, idle.2]
      simp
    · intro u _
      rfl

/-- No sleeper is lost: a thread whose test succeeded and that sleeps is in
the bucket of its address, where the next wake finds it, or a wake has taken it
out; and the closing loop of that wake comes to every thread in front of it, in
order, and unblocks it. -/
def SleepersKept (s : State) : Prop :=
  (∀ u, s.status u = .blocked →
    s.blockedOn u = some (bucketFor (s.owner u) (s.addr u)) ∨ InWalk s u) ∧
  ∀ t walk, s.walks t = some walk → ∃ s', unblockNext s t = some s' ∧
    match walk.rest with
    | [] => s'.walks t = none
    | u :: rest =>
      s'.status u ≠ .blocked ∧ s'.walks t = some ⟨rest.head?, rest⟩

theorem sleepersKept_of_shaped {s : State} (shaped : Shaped s) : SleepersKept s := by
  obtain ⟨_, shape⟩ := shaped
  constructor
  · intro u blocked
    rcases shape.accounted blocked with inBucket | inWalk
    · obtain ⟨_, blockedOn⟩ := isSome_iff_exists.mp inBucket
      obtain ⟨_, bucket, _⟩ := shape.asleep blockedOn
      rw [blockedOn, bucket]
      exact .inl rfl
    · exact .inr inWalk
  · intro t walk found
    obtain ⟨s', result, _, reached⟩ := unblockNext_shape shape found
    exact ⟨s', result, reached⟩

/-- In every run in which no thread enters a wait while a wake still has it in
front of it: a wake on an address wakes exactly the threads it should if and
only if no thread that waits on another address is among the first `count`
threads of the process in the bucket, and no sleeper is lost. -/
theorem futex_wake_precise (owner : Tid → Nat) (labels : List Label) (s : State)
    (run : Steps (Guarded step Undisturbed) (initial owner) labels s) :
    (∀ t uaddr count, Idle s t → (WakePrecise s t uaddr count ↔
        (uaddr % 4 = 0 → Unmixed s (s.owner t) uaddr count))) ∧ SleepersKept s := by
  have shaped := reachable_shaped run
  exact ⟨fun t uaddr count idle => wakePrecise_iff shaped idle uaddr count,
    sleepersKept_of_shaped shaped⟩

/-! Two addresses 128 bytes apart are in one bucket, whatever the process. -/

/-- The waker and two sleepers of one process. -/
def threadAt (i : Fin 3) : Tid := ⟨i, lt_of_lt_of_le i.2 (by decide)⟩

/-- Thread 1 waits on `0x1080`, then thread 2 on `0x1000`. -/
def twoSleepers : List Label :=
  [.wait (threadAt 1) 0x1080 0 0 (some 0) true, .wait (threadAt 2) 0x1000 0 0 (some 0) true]

theorem futexWait_walks {s : State} {val timeoutMs : Nat} {word : Option Nat} {armed : Bool}
    (taken : exec s (.wait t uaddr val timeoutMs word armed) = some s') : s'.walks = s.walks := by
  simp only [exec, futexWait] at taken
  split at taken
  · split at taken
    · cases taken
      rfl
    split at taken
    · cases taken
      rfl
    split at taken
    · cases taken
      rfl
    split at taken
    · split at taken
      · cases taken
      · cases taken
        rfl
    · cases taken
      rfl
  · cases taken

theorem waits_guarded {s last : State} {labels : List Label} (quiet : ∀ t, s.walks t = none)
    (waits : ∀ label ∈ labels, ∃ t uaddr val timeoutMs word armed,
      label = .wait t uaddr val timeoutMs word armed)
    (followed : followRun exec s labels = some last) :
    Steps (Guarded step Undisturbed) s labels last := by
  induction labels generalizing s with
  | nil =>
    cases followed
    exact .nil last
  | cons label _ ih =>
    obtain ⟨_, taken, rest⟩ := bind_eq_some_iff.mp followed
    obtain ⟨_, _, _, _, _, _, rfl⟩ := waits label mem_cons_self
    refine .cons ⟨taken, ?_⟩ (ih ?_ ?_ rest)
    · rintro ⟨waker, _, found, _⟩
      rw [quiet waker] at found
      cases found
    · rw [futexWait_walks taken]
      exact quiet
    · exact fun other member => waits other (mem_cons_of_mem _ member)

theorem twoSleepers_guarded :
    ∃ s, Steps (Guarded step Undisturbed) (initial fun _ => 7) twoSleepers s ∧
      Idle s (threadAt 0) ∧ s.owner (threadAt 0) = 7 ∧ firstInBucket s 7 0x1000 1 = [threadAt 1] ∧
      firstInBucket s 7 0x1080 1 = [threadAt 1] ∧ s.addr (threadAt 1) = 0x1080 := by
  have facts : (followRun exec (initial fun _ => 7) twoSleepers).any (fun s =>
      decide (Idle s (threadAt 0) ∧ s.owner (threadAt 0) = 7 ∧
        firstInBucket s 7 0x1000 1 = [threadAt 1] ∧ firstInBucket s 7 0x1080 1 = [threadAt 1] ∧
        s.addr (threadAt 1) = 0x1080)) = true := by decide +kernel
  obtain ⟨s, followed, holds⟩ := (any_eq_true _ _).mp facts
  refine ⟨s, waits_guarded (fun _ => rfl) ?_ followed, of_decide_eq_true holds⟩
  intro label member
  rcases mem_cons.mp member with rfl | member
  · exact ⟨_, _, _, _, _, _, rfl⟩
  · rw [mem_singleton.mp member]
    exact ⟨_, _, _, _, _, _, rfl⟩

theorem futex_wake_precise_twoSleepers : ∃ s, Steps (Guarded step Undisturbed)
    (initial fun _ => 7) twoSleepers s ∧ WakePrecise s (threadAt 0) 0x1080 1 := by
  obtain ⟨s, run, idle, owner, _, first, addr⟩ := twoSleepers_guarded
  refine ⟨s, run, ?_⟩
  refine ((futex_wake_precise (fun _ => 7) twoSleepers s run).1
    (threadAt 0) 0x1080 1 idle).mpr fun _ => ?_
  intro u member
  rw [owner, first, mem_singleton] at member
  rw [member, addr]

/-- A wake of one thread on `0x1000` wakes the thread that waits on `0x1080`,
and the thread that waits on `0x1000` sleeps on. -/
theorem futex_wake_wrong_address : ∃ s, Steps step (initial fun _ => 7) twoSleepers s ∧
      Idle s (threadAt 0) ∧ ¬ WakePrecise s (threadAt 0) 0x1000 1 := by
  obtain ⟨s, run, idle, owner, first, _, addr⟩ := twoSleepers_guarded
  refine ⟨s, Steps.of_guarded run, idle, ?_⟩
  intro precise
  have unmixed := (wakePrecise_iff (reachable_shaped run) idle 0x1000 1).mp
    precise rfl (threadAt 1) (by rw [owner, first]; exact mem_cons_self)
  rw [addr] at unmixed
  cases unmixed

end MainDob.Kernel.Futex
