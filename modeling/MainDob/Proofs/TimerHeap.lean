/-
Purpose: What holds of the timer heap in every run in which no section touches
  a timer between its being drained and the call of its callback, and no
  periodic deadline passes the end of the clock: the heap order and the
  positions, and what fires how often.
Main exports: HeapOk, Inv, timer_heap
-/
import MainDob.Kernel.Timer

namespace MainDob.Kernel.Timers

open Function (update update_of_ne update_self update_apply update_eq_self)
open Lib
open Option

/-! ### Reading the log -/

/-- Something holds of every event and the events before it. -/
def Always (P : Event → List Event → Prop) : List Event → Prop
  | [] => True
  | event :: before => P event before ∧ Always P before

/-- The drain that is going on on the CPU has taken the periodic timer, and it
was not armed again since. -/
def served (cpu t : Nat) : List Event → Bool
  | [] => false
  | .drained c u once _ _ _ :: before =>
    (c == cpu && u == t && !once) || served cpu t before
  | .began c _ :: before => c != cpu && served cpu t before
  | .armed u _ :: before => u != t && served cpu t before
  | _ :: before => served cpu t before

/-- The timer was cancelled, and not armed since. -/
def cancelledLast (t : Nat) : List Event → Bool
  | [] => false
  | .cancelled u :: before => u == t || cancelledLast t before
  | .armed u _ :: before => u != t && cancelledLast t before
  | _ :: before => cancelledLast t before

/-- A drain on the CPU took the timer. -/
def isDrained (cpu t : Nat) : Event → Bool
  | .drained c u _ _ _ _ => c == cpu && u == t
  | _ => false

/-- A drain on the CPU called the timer's callback. -/
def isFired (cpu t : Nat) : Event → Bool
  | .fired c u => c == cpu && u == t
  | _ => false

/-- The timer was drained as a one-shot timer. -/
def onceDrained (t : Nat) : Event → Bool
  | .drained _ u once _ _ _ => u == t && once
  | _ => false

/-- The timer was armed as a one-shot timer. -/
def onceArmed (t : Nat) : Event → Bool
  | .armed u once => u == t && once
  | _ => false

/-- A periodic timer that is drained is armed again, later than it was due and
later than now. -/
def Later : Event → List Event → Prop
  | .drained _ _ false now before after, _ => before < after ∧ now < after
  | _, _ => True

/-- A drain takes a periodic timer once, unless it is armed again meanwhile. -/
def OncePerDrain : Event → List Event → Prop
  | .drained cpu t false _ _ _, before => served cpu t before = false
  | _, _ => True

/-- A callback is not called after its timer was cancelled. -/
def NotCancelled : Event → List Event → Prop
  | .fired _ t, before => cancelledLast t before = false
  | _, _ => True

/-- The timer was taken, and its callback was not called yet. -/
def Phase.holds (t : Nat) : Phase → Bool
  | .popped u _ => u == t
  | .calling u => u == t
  | _ => false

/-- The CPU has drained the timer, and its callback was not called yet. -/
def inFlight (drains : Nat → Option Drain) (cpu t : Nat) : Bool :=
  (drains cpu).any fun d => d.phase.holds t

/-! ### The heap -/

/-- The heap is ordered by deadline and holds the armed timers. -/
structure HeapOk (s : State) : Prop where
  indexed : s.heap.Indexed
  ordered : s.heap.Ordered s.deadline
  members : ∀ t, (s.heap.pos t).isSome = s.armed t
  room : s.heap.count ≤ s.cap
  least : bootCap ≤ s.cap

variable {h : IndexedHeap Nat} {now : Nat}

section Heap

variable {s : State} {t : Nat}

theorem ordered_congr {key key' : Nat → Nat} (ordered : h.Ordered key)
    (same : ∀ i, i < h.count → key' (h.arr i) = key (h.arr i)) : h.Ordered key' := by
  intro i pos bound
  rw [same i bound, same ((i - 1) / 2) (by omega)]
  exact ordered i pos bound

theorem ordered_update {s : State} (indexed : h.Indexed)
    (ordered : h.Ordered s.deadline) (absent : h.pos t = none) (timer : Timer) :
    h.Ordered fun u => (update s.timers t timer u).deadline := by
  refine ordered_congr ordered ?_
  intro i bound
  have other : h.arr i ≠ t := by
    intro same
    have found := indexed.cell i bound
    rw [same, absent] at found
    cases found
  rw [update_of_ne other]
  rfl

theorem detach_spec (ok : HeapOk s) (t : Nat) :
    ∃ h, detachIfArmed s t = { s with heap := h } ∧ h.Indexed ∧
      h.Ordered s.deadline ∧ h.pos t = none ∧ h.count ≤ s.heap.count ∧
      ∀ b, (h.pos b).isSome = (!decide (b = t) && s.armed b) := by
  have clear : ∀ h : IndexedHeap Nat, h.pos t = none →
      { h with pos := update h.pos t none } = h := by
    intro h absent
    rw [← absent, update_eq_self]
  unfold detachIfArmed
  cases found : s.heap.pos t with
  | none =>
    refine ⟨s.heap, ?_, ok.indexed, ok.ordered, found, Nat.le_refl _, ?_⟩
    · simp only [clearIndex, clear s.heap found]
    intro b
    rw [ok.members]
    by_cases same : b = t
    · have off := ok.members t
      rw [found] at off
      simp [same, ← off]
    · simp [same]
  | some i =>
    obtain ⟨bound, here⟩ := ok.indexed.back t i found
    obtain ⟨indexed, ordered, count, members⟩ :=
      IndexedHeap.removeAt_spec ok.indexed ok.ordered bound
    rw [here] at members
    have gone : (s.heap.removeAt s.deadline i).pos t = none := by
      have off := members t
      simpa using off
    refine ⟨s.heap.removeAt s.deadline i, ?_, indexed, ordered, gone, ?_, ?_⟩
    · simp only [if_pos (And.intro bound here), clearIndex, heapRemoveAt, clear _ gone]
    · rw [count]
      exact Nat.sub_le _ _
    · intro b
      rw [members, ok.members]

theorem insert_spec {key : Nat → Nat} (indexed : h.Indexed)
    (ordered : h.Ordered key) (absent : h.pos t = none) (armed : Nat → Bool)
    (members : ∀ b, (h.pos b).isSome = (!decide (b = t) && armed b)) :
    (h.push key t).Indexed ∧ (h.push key t).Ordered key ∧ (h.push key t).count = h.count + 1 ∧
      ∀ b, ((h.push key t).pos b).isSome = update armed t true b := by
  obtain ⟨indexed', ordered', count, members'⟩ := IndexedHeap.push_spec indexed ordered absent
  refine ⟨indexed', ordered', count, fun b => ?_⟩
  rw [members', members, update_apply]
  by_cases same : b = t <;> simp [same]

theorem members_off {armed : Nat → Bool}
    (members : ∀ b, (h.pos b).isSome = (!decide (b = t) && armed b)) (b : Nat) :
    (h.pos b).isSome = update armed t false b := by
  rw [members, update_apply]
  by_cases same : b = t <;> simp [same]

theorem armSection_spec (ok : HeapOk s) (t deadline period : Nat) :
    ∃ h done timer, armSection s t deadline period = { s with
          heap := h
          timers := update s.timers t timer
          armed := update s.armed t done
          log := (if done then .armed t (period == 0) else .refused t) :: s.log } ∧
      timer.period = period ∧
      HeapOk { s with
        heap := h
        timers := update s.timers t timer
        armed := update s.armed t done } := by
  obtain ⟨h, detached, indexed, ordered, absent, count, members⟩ := detach_spec ok t
  have outside := ordered_update indexed ordered absent { s.timers t with
      gen := ((s.timers t).gen + 1) % genWord
      deadline := deadline
      period := period }
  unfold armSection armLocked
  rw [detached]
  by_cases full : s.cap ≤ h.count
  · simp only [heapInsert, State.setTimer, full, if_true]
    exact ⟨h, false, _, rfl, rfl, indexed, outside, members_off members,
      Nat.le_trans count ok.room, ok.least⟩
  · simp only [heapInsert, State.setTimer, full, if_false]
    obtain ⟨indexed', ordered', count', members'⟩ :=
      insert_spec indexed outside absent s.armed members
    exact ⟨_, true, _, rfl, rfl, indexed', ordered', members',
      Nat.le_trans (Nat.le_of_eq count') (Nat.lt_of_not_le full), ok.least⟩

theorem timerCancel_spec (ok : HeapOk s) (t : Nat) :
    ∃ h timer, timerCancel s t = { s with
          heap := h
          timers := update s.timers t timer
          armed := update s.armed t false
          log := .cancelled t :: s.log } ∧
      HeapOk { s with
        heap := h
        timers := update s.timers t timer
        armed := update s.armed t false } := by
  obtain ⟨h, detached, indexed, ordered, absent, count, members⟩ := detach_spec ok t
  unfold timerCancel
  rw [detached]
  exact ⟨h, _, rfl, indexed, ordered_update indexed ordered absent _,
    members_off members, Nat.le_trans count ok.room, ok.least⟩

theorem headDue_iff : headDue s now = true ↔
    0 < s.heap.count ∧ s.deadline (s.heap.arr 0) ≤ now := by
  simp [headDue]

theorem HeapOk.head_armed (ok : HeapOk s) (some' : 0 < s.heap.count) :
    s.armed (s.heap.arr 0) = true := by
  rw [← ok.members, ok.indexed.cell 0 some']
  rfl

theorem HeapOk.none_due (ok : HeapOk s) (calm : headDue s now = false) (armed : s.armed t = true) :
    now < s.deadline t := by
  rw [← ok.members, isSome_iff_exists] at armed
  obtain ⟨i, found⟩ := armed
  obtain ⟨bound, here⟩ := ok.indexed.back t i found
  have least := ok.ordered.least i bound
  rw [here] at least
  have notDue : ¬ (0 < s.heap.count ∧ s.deadline (s.heap.arr 0) ≤ now) := by
    rw [← headDue_iff, calm]
    exact Bool.false_ne_true
  omega

theorem popDue_spec (ok : HeapOk s) (cpu : Nat) (due : headDue s now = true) :
    ∃ h after, popDue s cpu now = { s with
          heap := h
          timers := update s.timers (s.heap.arr 0)
            { s.timers (s.heap.arr 0) with deadline := after, firePending := true }
          armed := update s.armed (s.heap.arr 0) (decide ((s.timers (s.heap.arr 0)).period ≠ 0))
          log := .drained cpu (s.heap.arr 0) (decide ((s.timers (s.heap.arr 0)).period = 0)) now
            (s.deadline (s.heap.arr 0)) after :: s.log
          drains := update s.drains cpu (some ⟨now, .popped (s.heap.arr 0)
              (s.timers (s.heap.arr 0)).gen⟩) } ∧
      after = (if (s.timers (s.heap.arr 0)).period = 0 then 0 else
        nextDeadline now (s.deadline (s.heap.arr 0)) (s.timers (s.heap.arr 0)).period) ∧
      HeapOk { s with
        heap := h
        timers := update s.timers (s.heap.arr 0)
          { s.timers (s.heap.arr 0) with deadline := after, firePending := true }
        armed := update s.armed (s.heap.arr 0)
          (decide ((s.timers (s.heap.arr 0)).period ≠ 0)) } := by
  obtain ⟨some', _⟩ := headDue_iff.mp due
  obtain ⟨indexed, ordered, count, members⟩ := IndexedHeap.removeAt_spec ok.indexed ok.ordered some'
  have absent : (s.heap.removeAt s.deadline 0).pos (s.heap.arr 0) = none := by
    have off := members (s.heap.arr 0)
    simpa using off
  have members' : ∀ b, ((s.heap.removeAt s.deadline 0).pos b).isSome =
      (!decide (b = s.heap.arr 0) && s.armed b) := by
    intro b
    rw [members, ok.members]
  have room := ok.room
  unfold popDue
  by_cases periodic : (s.timers (s.heap.arr 0)).period = 0
  · simp only [periodic, ne_eq, not_true_eq_false, if_false, decide_true, decide_false, if_true]
    refine ⟨s.heap.removeAt s.deadline 0, 0, rfl, rfl, indexed,
      ordered_update indexed ordered absent _, members_off members', ?_, ok.least⟩
    show (s.heap.removeAt s.deadline 0).count ≤ s.cap
    omega
  have outside := ordered_update indexed ordered absent { s.timers (s.heap.arr 0) with
      deadline := nextDeadline now (s.deadline (s.heap.arr 0)) (s.timers (s.heap.arr 0)).period
      firePending := true }
  obtain ⟨indexed', ordered', count', memberships⟩ :=
    insert_spec indexed outside absent s.armed members'
  have space : ¬ s.cap ≤ (s.heap.removeAt s.deadline 0).count := by
    omega
  simp only [periodic, ne_eq, not_false_eq_true, if_true, decide_true,
    decide_false, if_false, heapRemoveAt, State.setTimer, heapInsert, space]
  refine ⟨_, _, rfl, rfl, indexed', ordered', memberships,
    Nat.le_trans (Nat.le_of_eq count') ?_, ok.least⟩
  exact Nat.lt_of_not_le space

theorem copyStorage_spec (ok : HeapOk s) (junk : Nat → Nat) (cap : Nat) (room : s.heap.count ≤ cap)
    (least : bootCap ≤ cap) : HeapOk { s with heap := copyStorage s.heap junk, cap := cap } := by
  have same : ∀ i, i < s.heap.count →
      (copyStorage s.heap junk).arr i = s.heap.arr i := fun i bound =>
    if_pos bound
  refine ⟨⟨?_, ?_⟩, ?_, ok.members, room, least⟩
  · intro i bound
    rw [same i bound]
    exact ok.indexed.cell i bound
  · intro a i found
    obtain ⟨bound, here⟩ := ok.indexed.back a i found
    exact ⟨bound, (same i bound).trans here⟩
  · intro i pos bound
    rw [same i bound, same _ (show (i - 1) / 2 < s.heap.count from
      Nat.lt_of_le_of_lt (by omega) bound)]
    exact ok.ordered i pos bound

end Heap

/-! ### Steps -/

/-- The next deadline of a head that is due and periodic is on the clock. -/
def NoOverflow (s : State) (now : Nat) : Prop :=
  headDue s now = true → (s.timers (s.heap.arr 0)).period ≠ 0 →
    now + (s.timers (s.heap.arr 0)).period < clockWord

/-- No timer is armed or cancelled between its being drained and the call of its
callback, and no periodic deadline passes the end of the clock. -/
def Undisturbed (s : State) : Label → Prop
  | .armAt t _ => ∀ cpu, inFlight s.drains cpu t = false
  | .armPeriodic t _ _ => ∀ cpu, inFlight s.drains cpu t = false
  | .cancel t => ∀ cpu, inFlight s.drains cpu t = false
  | .tick _ now => NoOverflow s now
  | .pop cpu => ∀ d, s.drains cpu = some d → NoOverflow s d.now
  | _ => True

/-- What every section keeps. -/
structure Inv (s : State) : Prop where
  heap : HeapOk s
  flight : ∀ cpu now t g, s.drains cpu = some ⟨now, .popped t g⟩ → (s.timers t).gen = g
  fires : ∀ cpu t, s.log.countP (isDrained cpu t) =
    s.log.countP (isFired cpu t) + (inFlight s.drains cpu t).toNat
  once : ∀ t, s.log.countP (onceDrained t) +
    (s.armed t && (s.timers t).period == 0).toNat ≤ s.log.countP (onceArmed t)
  later : Always Later s.log
  oncePer : Always OncePerDrain s.log
  serves : ∀ cpu d t, s.drains cpu = some d → served cpu t s.log = true →
    s.armed t = true → d.now < s.deadline t
  late : Always NotCancelled s.log
  calm : ∀ t, s.armed t = true → cancelledLast t s.log = false
  calmFlight : ∀ cpu t, inFlight s.drains cpu t = true → cancelledLast t s.log = false

section Steps

variable {s s' : State}

theorem HeapOk.initial : HeapOk initial where
  indexed := by
    constructor
    · intro i bound
      cases bound
    · intro a i found
      cases found
  ordered := by
    intro i _ bound
    cases bound
  members _ := rfl
  room := by decide
  least := by decide

theorem Inv.initial : Inv initial where
  heap := .initial
  flight := nofun
  fires := fun _ _ => rfl
  once := fun _ => Nat.le_refl 0
  later := trivial
  oncePer := trivial
  serves := nofun
  late := trivial
  calm := nofun
  calmFlight := nofun

theorem inFlight_update (drains : Nat → Option Drain) (cpu c t : Nat) (drain : Option Drain) :
    inFlight (update drains cpu drain) c t = if c = cpu then drain.any fun d =>
    d.phase.holds t else inFlight drains c t := by
  unfold inFlight
  rw [update_apply]
  split <;> rfl

theorem Inv.touch (inv : Inv s) {t : Nat} {timer : Timer} {done : Bool} {event : Event}
    (ok : HeapOk { s with
      heap := h
      timers := update s.timers t timer
      armed := update s.armed t done }) (free : ∀ cpu, inFlight s.drains cpu t = false)
    (kind : (event = .armed t (timer.period == 0) ∧ done = true) ∨
      (event = .refused t ∧ done = false) ∨ (event = .cancelled t ∧ done = false)) :
    Inv { s with
      heap := h
      timers := update s.timers t timer
      armed := update s.armed t done
      log := event :: s.log } := by
  have other : ∀ cpu u, inFlight s.drains cpu u = true → u ≠ t := by
    rintro cpu u flying rfl
    rw [free cpu] at flying
    cases flying
  constructor
  case heap => exact { ok with }
  case flight =>
    intro cpu now u g found
    have drain : s.drains cpu = some ⟨now, .popped u g⟩ := found
    have different : u ≠ t := other cpu u (by simp [inFlight, drain, Phase.holds])
    show (update s.timers t timer u).gen = g
    rw [update_of_ne different]
    exact inv.flight cpu now u g found
  case fires =>
    intro cpu u
    have old := inv.fires cpu u
    rcases kind with ⟨rfl, rfl⟩ | ⟨rfl, rfl⟩ | ⟨rfl, rfl⟩
    all_goals simpa [isDrained, isFired] using old
  case once =>
    intro u
    have old := inv.once u
    by_cases same : u = t
    · subst same
      rcases kind with ⟨rfl, rfl⟩ | ⟨rfl, rfl⟩ | ⟨rfl, rfl⟩
      · simp only [List.countP_cons, onceDrained, onceArmed,
          update_self, Bool.true_and, beq_self_eq_true, Bool.false_eq_true, if_false]
        cases timer.period == 0 <;> simp <;> omega
      all_goals
        simp [onceDrained, onceArmed]
        omega
    · rcases kind with ⟨rfl, rfl⟩ | ⟨rfl, rfl⟩ | ⟨rfl, rfl⟩
      all_goals
        simpa [onceDrained, onceArmed, same, Ne.symm same] using old
  case later =>
    rcases kind with ⟨rfl, rfl⟩ | ⟨rfl, rfl⟩ | ⟨rfl, rfl⟩
    all_goals exact ⟨trivial, inv.later⟩
  case oncePer =>
    rcases kind with ⟨rfl, rfl⟩ | ⟨rfl, rfl⟩ | ⟨rfl, rfl⟩
    all_goals exact ⟨trivial, inv.oncePer⟩
  case serves =>
    intro cpu d u found serve armed
    show d.now < (update s.timers t timer u).deadline
    by_cases same : u = t
    · subst same
      rcases kind with ⟨rfl, rfl⟩ | ⟨rfl, rfl⟩ | ⟨rfl, rfl⟩
      all_goals simp [served] at serve armed
    · rw [update_of_ne same]
      refine inv.serves cpu d u found ?_ ?_
      · rcases kind with ⟨rfl, rfl⟩ | ⟨rfl, rfl⟩ | ⟨rfl, rfl⟩
        all_goals simpa [served, Ne.symm same] using serve
      · simpa [same] using armed
  case late =>
    rcases kind with ⟨rfl, rfl⟩ | ⟨rfl, rfl⟩ | ⟨rfl, rfl⟩
    all_goals exact ⟨trivial, inv.late⟩
  case calm =>
    intro u armed
    by_cases same : u = t
    · subst same
      rcases kind with ⟨rfl, rfl⟩ | ⟨rfl, rfl⟩ | ⟨rfl, rfl⟩
      all_goals simp [cancelledLast] at armed ⊢
    · have old := inv.calm u (by simpa [same] using armed)
      rcases kind with ⟨rfl, rfl⟩ | ⟨rfl, rfl⟩ | ⟨rfl, rfl⟩
      all_goals simpa [cancelledLast, Ne.symm same] using old
  case calmFlight =>
    intro cpu u flying
    have different := other cpu u flying
    have old := inv.calmFlight cpu u flying
    rcases kind with ⟨rfl, rfl⟩ | ⟨rfl, rfl⟩ | ⟨rfl, rfl⟩
    all_goals simpa [cancelledLast, Ne.symm different] using old

theorem Inv.storage (inv : Inv s) (ok : HeapOk s')
    (timers : s'.timers = s.timers) (drains : s'.drains = s.drains)
    (armed : s'.armed = s.armed) (log : s'.log = s.log) : Inv s' := by
  constructor
  case heap => exact ok
  case flight => rw [drains, timers]; exact inv.flight
  case fires => rw [log, drains]; exact inv.fires
  case once => rw [log, armed, timers]; exact inv.once
  case later => rw [log]; exact inv.later
  case oncePer => rw [log]; exact inv.oncePer
  case serves =>
    simp only [State.deadline, log, armed, drains, timers]
    exact inv.serves
  case late => rw [log]; exact inv.late
  case calm => rw [log, armed]; exact inv.calm
  case calmFlight => rw [log, drains]; exact inv.calmFlight

theorem nextDeadline_later {deadline period : Nat} (due : deadline ≤ now)
    (periodic : period ≠ 0) (fits : now + period < clockWord) :
    deadline < nextDeadline now deadline period ∧ now < nextDeadline now deadline period := by
  have next : (deadline + period) % clockWord = deadline + period := Nat.mod_eq_of_lt (by omega)
  unfold nextDeadline
  dsimp only
  rw [next, Nat.mod_eq_of_lt fits]
  split <;> omega

variable {cpu : Nat}

/-- A drain takes the head. -/
theorem Inv.pop (inv : Inv s) (due : headDue s now = true) (fits : NoOverflow s now)
    (idle : ∀ t, inFlight s.drains cpu t = false) (mine : ∀ t, served cpu t s.log = true →
    s.armed t = true → now < s.deadline t) : Inv (popDue s cpu now) := by
  obtain ⟨h, after, result, afterEq, ok⟩ := popDue_spec inv.heap cpu due
  obtain ⟨some', head⟩ := headDue_iff.mp due
  have armedHead := inv.heap.head_armed some'
  have fits' := fits due
  rw [result]
  generalize headEq : s.heap.arr 0 = t at *
  have notServed : served cpu t s.log = false := by
    cases serve : served cpu t s.log with
    | false => rfl
    | true =>
      have ahead := mine t serve armedHead
      omega
  have later : (s.timers t).period ≠ 0 → s.deadline t < after ∧ now < after := by
    intro periodic
    rw [if_neg periodic] at afterEq
    rw [afterEq]
    exact nextDeadline_later head periodic (fits' periodic)
  constructor
  case heap => exact { ok with }
  case flight =>
    intro c now' u g found
    have gens : ∀ v, (update s.timers t
        { s.timers t with deadline := after, firePending := true } v).gen = (s.timers v).gen := by
      intro v
      by_cases same : v = t
      · subst same
        simp
      · rw [update_of_ne same]
    rw [gens]
    by_cases here : c = cpu
    · subst here
      have same : (⟨now, .popped t (s.timers t).gen⟩ : Drain) =
          ⟨now', .popped u g⟩ := by simpa using found
      cases same
      rfl
    · exact inv.flight c now' u g (by simpa [here] using found)
  case fires =>
    intro c u
    have old := inv.fires c u
    rw [inFlight_update]
    by_cases here : c = cpu
    · subst here
      rw [idle u] at old
      by_cases same : t = u
      · subst same
        simpa [isDrained, isFired, Phase.holds] using old
      · have notSame : (t == u) = false := beq_eq_false_iff_ne.mpr same
        simpa [isDrained, isFired, Phase.holds, notSame] using old
    · simpa [isDrained, isFired, here, Ne.symm here] using old
  case once =>
    intro u
    have old := inv.once u
    by_cases same : u = t
    · subst same
      by_cases periodic : (s.timers u).period = 0
      · simp [periodic, armedHead] at old
        simp [onceDrained, onceArmed, periodic]
        omega
      · have off : ((s.timers u).period == 0) = false := beq_eq_false_iff_ne.mpr periodic
        simpa [onceDrained, onceArmed, periodic, off] using old
    · simpa [onceDrained, onceArmed, same, Ne.symm same] using old
  case later =>
    refine ⟨?_, inv.later⟩
    by_cases periodic : (s.timers t).period = 0
    · simp [Later, periodic]
    · simp only [Later, periodic, decide_false]
      exact later periodic
  case oncePer =>
    refine ⟨?_, inv.oncePer⟩
    by_cases periodic : (s.timers t).period = 0
    · simp [OncePerDrain, periodic]
    · simp only [OncePerDrain, periodic, decide_false]
      exact notServed
  case serves =>
    intro c d u found serve armed
    show d.now < (update s.timers t
      { s.timers t with deadline := after, firePending := true } u).deadline
    by_cases same : u = t
    · subst same
      have periodic : (s.timers u).period ≠ 0 := by simpa using armed
      rw [update_self]
      show d.now < after
      by_cases here : c = cpu
      · subst here
        have drain : d = ⟨now, .popped u (s.timers u).gen⟩ := by simpa using found.symm
        rw [drain]
        exact (later periodic).2
      · have old := inv.serves c d u (by simpa [here] using found)
          (by simpa [served, Ne.symm here] using serve) armedHead
        omega
    · rw [update_of_ne same]
      have armed' : s.armed u = true := by simpa [same] using armed
      have serve' : served c u s.log = true := by simpa [served, Ne.symm same] using serve
      by_cases here : c = cpu
      · subst here
        have drain : d = ⟨now, .popped t (s.timers t).gen⟩ := by simpa using found.symm
        rw [drain]
        exact mine u serve' armed'
      · exact inv.serves c d u (by simpa [here] using found) serve' armed'
  case late => exact ⟨trivial, inv.late⟩
  case calm =>
    intro u armed
    by_cases same : u = t
    · rw [same]
      exact inv.calm t armedHead
    · exact inv.calm u (by simpa [same] using armed)
  case calmFlight =>
    intro c u flown
    rw [inFlight_update] at flown
    by_cases here : c = cpu
    · rw [if_pos here] at flown
      have same : t = u := by simpa [Phase.holds] using flown
      rw [← same]
      exact inv.calm t armedHead
    · rw [if_neg here] at flown
      exact inv.calmFlight c u flown

theorem Inv.advance (inv : Inv s) {drain : Option Drain} {timers : Nat → Timer}
    (same : ∀ t, (timers t).deadline = (s.timers t).deadline ∧
      (timers t).period = (s.timers t).period ∧ (timers t).gen = (s.timers t).gen)
    (phase : ∀ t, (drain.any fun d => d.phase.holds t) = inFlight s.drains cpu t)
    (settled : ∀ d t g, drain = some d → d.phase ≠ .popped t g)
    (clock : ∀ d, drain = some d → ∃ old, s.drains cpu = some old ∧ old.now = d.now) :
    Inv { s with timers := timers, drains := update s.drains cpu drain } := by
  have flying : ∀ c t, inFlight (update s.drains cpu drain) c t = inFlight s.drains c t := by
    intro c t
    rw [inFlight_update]
    split
    · next here => rw [here, phase]
    · rfl
  constructor
  case heap =>
    refine ⟨inv.heap.indexed, ?_, inv.heap.members, inv.heap.room, inv.heap.least⟩
    refine ordered_congr inv.heap.ordered fun i _ => ?_
    exact (same (s.heap.arr i)).1
  case flight =>
    intro c now t g found
    rw [(same t).2.2]
    by_cases here : c = cpu
    · subst here
      have drainEq : drain = some ⟨now, .popped t g⟩ := by simpa using found
      exact absurd rfl (settled _ t g drainEq)
    · exact inv.flight c now t g (by simpa [here] using found)
  case fires => simpa only [flying] using inv.fires
  case once =>
    intro t
    have old := inv.once t
    rw [← (same t).2.1] at old
    exact old
  case later => exact inv.later
  case oncePer => exact inv.oncePer
  case serves =>
    intro c d t found serve armed
    show d.now < (timers t).deadline
    rw [(same t).1]
    by_cases here : c = cpu
    · subst here
      have drainEq : drain = some d := by simpa using found
      obtain ⟨old, was, clockEq⟩ := clock d drainEq
      rw [← clockEq]
      exact inv.serves c old t was serve armed
    · exact inv.serves c d t (by simpa [here] using found) serve armed
  case late => exact inv.late
  case calm => exact inv.calm
  case calmFlight => simpa only [flying] using inv.calmFlight

theorem pending_same (timers : Nat → Timer) (t : Nat) (value : Bool) (u : Nat) :
    (update timers t { timers t with firePending := value } u).deadline = (timers u).deadline ∧
      (update timers t { timers t with firePending := value } u).period = (timers u).period ∧
      (update timers t { timers t with firePending := value } u).gen = (timers u).gen := by
  rw [update_apply]
  split
  · next same =>
      rw [same]
      exact ⟨rfl, rfl, rfl⟩
  · exact ⟨rfl, rfl, rfl⟩

theorem Inv.fire (inv : Inv s) {t : Nat} (found : s.drains cpu = some ⟨now, .calling t⟩) :
    Inv ((s.note (.fired cpu t)).setDrain cpu (some ⟨now, .returning t⟩)) := by
  have flew : ∀ u, inFlight s.drains cpu u = (t == u) := by
    intro u
    simp [inFlight, found, Phase.holds]
  constructor
  case heap =>
    exact ⟨inv.heap.indexed, inv.heap.ordered, inv.heap.members, inv.heap.room, inv.heap.least⟩
  case flight =>
    intro c now' u g drain
    by_cases here : c = cpu
    · subst here
      simp [State.setDrain] at drain
    · exact inv.flight c now' u g (by simpa [State.setDrain, State.note, here] using drain)
  case fires =>
    intro c u
    have old := inv.fires c u
    simp only [State.setDrain, State.note, inFlight_update]
    by_cases here : c = cpu
    · subst here
      rw [flew u] at old
      by_cases same : t = u
      · subst same
        simpa [isDrained, isFired, Phase.holds] using old
      · have notSame : (t == u) = false := beq_eq_false_iff_ne.mpr same
        simpa [isDrained, isFired, Phase.holds, notSame] using old
    · simpa [isDrained, isFired, here, Ne.symm here] using old
  case once =>
    intro u
    have old := inv.once u
    simpa [State.setDrain, State.note, onceDrained, onceArmed] using old
  case later => exact ⟨trivial, inv.later⟩
  case oncePer => exact ⟨trivial, inv.oncePer⟩
  case serves =>
    intro c d u drain serve armed
    by_cases here : c = cpu
    · subst here
      have drainEq : d = ⟨now, .returning t⟩ := by simpa [State.setDrain] using drain.symm
      rw [drainEq]
      exact inv.serves c ⟨now, .calling t⟩ u found serve armed
    · exact inv.serves c d u (by simpa [State.setDrain, State.note, here] using drain) serve armed
  case late =>
    refine ⟨inv.calmFlight cpu t ?_, inv.late⟩
    rw [flew]
    exact beq_self_eq_true t
  case calm => exact inv.calm
  case calmFlight =>
    intro c u flown
    simp only [State.setDrain, State.note, inFlight_update] at flown
    by_cases here : c = cpu
    · simp [here, Phase.holds] at flown
    · rw [if_neg here] at flown
      exact inv.calmFlight c u flown

theorem Inv.begin (inv : Inv s) (now : Nat) (idle : s.drains cpu = none) :
    Inv (s.note (.began cpu now)) := by
  constructor
  case heap =>
    exact ⟨inv.heap.indexed, inv.heap.ordered, inv.heap.members, inv.heap.room, inv.heap.least⟩
  case flight => exact inv.flight
  case fires =>
    intro c u
    have old := inv.fires c u
    simpa [State.note, isDrained, isFired] using old
  case once =>
    intro u
    have old := inv.once u
    simpa [State.note, onceDrained, onceArmed] using old
  case later => exact ⟨trivial, inv.later⟩
  case oncePer => exact ⟨trivial, inv.oncePer⟩
  case serves =>
    intro c d u drain serve armed
    have other : c ≠ cpu := by
      rintro rfl
      have busy : s.drains c = some d := drain
      rw [idle] at busy
      cases busy
    exact inv.serves c d u drain (by simpa [State.note, served, Ne.symm other] using serve) armed
  case late => exact ⟨trivial, inv.late⟩
  case calm => exact inv.calm
  case calmFlight => exact inv.calmFlight

/-- The sections that change the storage of the heap. -/
def Label.resizes : Label → Bool
  | .growRead => true
  | .growAdopt _ _ => true
  | .trimRead => true
  | .trimAdopt _ _ => true
  | _ => false

/-- Growing and trimming keep the heap in order and everything else. -/
theorem HeapOk.resized (ok : HeapOk s) {label : Label} (resizes : label.resizes = true)
    (taken : exec s label = some s') : HeapOk s' ∧ s'.timers = s.timers ∧
    s'.drains = s.drains ∧ s'.armed = s.armed ∧ s'.log = s.log ∧ s'.heap.count = s.heap.count ∧
      s'.heap.pos = s.heap.pos ∧ ∀ i, i < s.heap.count → s'.heap.arr i = s.heap.arr i := by
  have room := ok.room
  have least := ok.least
  cases label with
  | growRead =>
    simp only [exec, Option.some.injEq] at taken
    rw [← taken, growRead]
    split <;> exact ⟨{ ok with }, rfl, rfl, rfl, rfl, rfl, rfl, fun _ _ => rfl⟩
  | growAdopt have_ junk =>
    simp only [exec, ite_none_right_eq_some, Option.some.injEq] at taken
    rw [← taken.2, growAdopt]
    dsimp only
    split
    · exact ⟨{ copyStorage_spec ok junk (have_ * 2) (by omega) (by omega) with },
        rfl, rfl, rfl, rfl, rfl, rfl, fun _ bound => if_pos bound⟩
    · exact ⟨{ ok with }, rfl, rfl, rfl, rfl, rfl, rfl, fun _ _ => rfl⟩
  | trimRead =>
    simp only [exec, Option.some.injEq] at taken
    rw [← taken, trimRead]
    split <;> exact ⟨{ ok with }, rfl, rfl, rfl, rfl, rfl, rfl, fun _ _ => rfl⟩
  | trimAdopt cap junk =>
    simp only [exec, ite_none_right_eq_some, Option.some.injEq] at taken
    rw [← taken.2, trimAdopt]
    dsimp only
    split
    · have wanted : bootCap ≤ trimWant cap := by
        unfold trimWant
        split <;> omega
      exact ⟨{ copyStorage_spec ok junk (trimWant cap) (by omega) wanted with },
        rfl, rfl, rfl, rfl, rfl, rfl, fun _ bound => if_pos bound⟩
    · exact ⟨{ ok with }, rfl, rfl, rfl, rfl, rfl, rfl, fun _ _ => rfl⟩
  | _ => cases resizes

/-- Every section that meets the condition keeps the invariant. -/
theorem Inv.step (inv : Inv s) {label : Label} (taken : step s label s')
    (calm : Undisturbed s label) : Inv s' := by
  unfold Timers.step at taken
  cases label with
  | armAt t deadline =>
    simp only [exec, Option.some.injEq] at taken
    rw [← taken]
    obtain ⟨_, done, _, result, period, ok⟩ := armSection_spec inv.heap t deadline 0
    rw [result]
    refine inv.touch ok calm ?_
    rw [period]
    cases done <;> simp
  | armPeriodic t now period =>
    simp only [exec, Option.some.injEq] at taken
    rw [← taken]
    obtain ⟨_, done, _, result, same, ok⟩ :=
      armSection_spec inv.heap t ((now + period) % clockWord) period
    rw [result]
    refine inv.touch ok calm ?_
    rw [same]
    cases done <;> simp
  | cancel t =>
    simp only [exec, Option.some.injEq] at taken
    rw [← taken]
    obtain ⟨_, _, result, ok⟩ := timerCancel_spec inv.heap t
    rw [result]
    exact inv.touch ok calm (.inr (.inr ⟨rfl, rfl⟩))
  | growRead | growAdopt | trimRead | trimAdopt =>
    obtain ⟨ok, timers, drains, armed, log, _⟩ := inv.heap.resized rfl taken
    exact inv.storage ok timers drains armed log
  | tick cpu now =>
    cases idle : s.drains cpu with
    | some => simp [exec, idle] at taken
    | none =>
      simp only [exec, idle] at taken
      split at taken
      · next due =>
          simp only [Option.some.injEq] at taken
          rw [← taken]
          refine (inv.begin now idle).pop due calm ?_ ?_
          · intro t
            simp [inFlight, State.note, idle]
          · intro t serve
            simp [State.note, served] at serve
      · simp only [Option.some.injEq] at taken
        rw [← taken]
        exact inv
  | check cpu =>
    simp only [exec] at taken
    split at taken
    · next now t fireGen found =>
        rw [if_pos (inv.flight cpu now t fireGen found)] at taken
        simp only [Option.some.injEq] at taken
        rw [← taken]
        refine inv.advance (fun t => ⟨rfl, rfl, rfl⟩) ?_ ?_ ?_
        · intro u
          simp [inFlight, found, Phase.holds]
        · rintro _ _ _ ⟨rfl⟩
          simp
        · rintro _ ⟨rfl⟩
          exact ⟨_, found, rfl⟩
    · cases taken
  | call =>
    simp only [exec] at taken
    split at taken
    · next now t found =>
        simp only [Option.some.injEq] at taken
        rw [← taken]
        exact inv.fire found
    · cases taken
  | ret =>
    simp only [exec] at taken
    split at taken
    · next now t found =>
        simp only [Option.some.injEq] at taken
        rw [← taken]
        refine inv.advance (pending_same s.timers t false) ?_ ?_ ?_
        · intro u
          simp [inFlight, found, Phase.holds]
        · rintro _ _ _ ⟨rfl⟩
          simp
        · rintro _ ⟨rfl⟩
          exact ⟨_, found, rfl⟩
    · cases taken
  | pop cpu =>
    simp only [exec] at taken
    split at taken
    · next now found =>
        have idle : ∀ t, inFlight s.drains cpu t = false := by
          intro t
          simp [inFlight, found, Phase.holds]
        simp only [Option.some.injEq] at taken
        rw [← taken, drainNext]
        split
        · next due =>
            exact inv.pop due (calm _ found) idle fun t serve armed =>
              inv.serves cpu _ t found serve armed
        · refine inv.advance (fun t => ⟨rfl, rfl, rfl⟩) ?_ ?_ ?_
          · intro u
            rw [idle u]
            rfl
          · rintro _ _ _ ⟨⟩
          · rintro _ ⟨⟩
    · cases taken

/-! ### Every run -/

/-- What holds of the timers. -/
structure Contract (s : State) : Prop where
  /-- The array is a binary min-heap on deadlines. -/
  heap : ∀ i, 0 < i → i < s.heap.count →
    s.deadline (s.heap.arr ((i - 1) / 2)) ≤ s.deadline (s.heap.arr i)
  /-- An armed timer is in the array, at its `heap_idx` and nowhere else. -/
  armed : ∀ t, s.armed t = true → ∃ i, s.heap.pos t = some i ∧
    ∀ j, (j < s.heap.count ∧ s.heap.arr j = t) ↔ j = i
  /-- A timer that is not armed has no position, and is not in the array. -/
  unarmed : ∀ t, s.armed t = false → s.heap.pos t = none ∧ ∀ j, j < s.heap.count → s.heap.arr j ≠ t
  /-- Growing and trimming leave the timers in the array where they are. -/
  storage : ∀ label s', label.resizes = true → exec s label = some s' →
    s'.armed = s.armed ∧ s'.timers = s.timers ∧ s'.heap.count = s.heap.count ∧
      s'.heap.pos = s.heap.pos ∧ ∀ i, i < s.heap.count → s'.heap.arr i = s.heap.arr i
  /-- A drained timer fires once: on each CPU the calls of its callback are as
  many as its drains, less the one whose callback is about to be called. -/
  fires : ∀ cpu t, s.log.countP (isDrained cpu t) =
    s.log.countP (isFired cpu t) + (inFlight s.drains cpu t).toNat
  /-- Each arming of a one-shot timer is drained once at most. -/
  once : ∀ t, s.log.countP (onceDrained t) +
    (s.armed t && (s.timers t).period == 0).toNat ≤ s.log.countP (onceArmed t)
  /-- A periodic timer that is drained is armed again at a later deadline. -/
  later : Always Later s.log
  /-- A drain takes a periodic timer once at most, unless it is armed again. -/
  oncePer : Always OncePerDrain s.log
  /-- A drain ends when nothing is due any more. -/
  complete : ∀ cpu d s', s.drains cpu = some d → exec s (.pop cpu) = some s' →
    s'.drains cpu = none → ∀ t, s'.armed t = true → d.now < s'.deadline t
  /-- No callback is called after its timer was cancelled and not armed
  again. -/
  cancelled : Always NotCancelled s.log

theorem Inv.contract (inv : Inv s) : Contract s := by
  constructor
  case heap => exact inv.heap.ordered
  case armed =>
    intro t armed
    rw [← inv.heap.members, isSome_iff_exists] at armed
    obtain ⟨i, found⟩ := armed
    refine ⟨i, found, fun j => ⟨?_, ?_⟩⟩
    · rintro ⟨bound, here⟩
      have cell := inv.heap.indexed.cell j bound
      rw [here, found] at cell
      exact (Option.some.inj cell).symm
    · rintro rfl
      exact inv.heap.indexed.back t j found
  case unarmed =>
    intro t off
    have absent : s.heap.pos t = none := by
      rw [← not_isSome_iff_eq_none, inv.heap.members, off]
      exact Bool.false_ne_true
    refine ⟨absent, fun j bound here => ?_⟩
    have cell := inv.heap.indexed.cell j bound
    rw [here, absent] at cell
    cases cell
  case storage =>
    intro label s' resizes taken
    obtain ⟨_, timers, _, armed, _, rest⟩ := inv.heap.resized resizes taken
    exact ⟨armed, timers, rest⟩
  case fires => exact inv.fires
  case once => exact inv.once
  case later => exact inv.later
  case oncePer => exact inv.oncePer
  case complete =>
    intro cpu d s' found taken ended t armed
    simp only [exec] at taken
    split at taken
    · next now was =>
        rw [found] at was
        cases was
        simp only [Option.some.injEq] at taken
        rw [← taken, drainNext] at ended armed ⊢
        split at ended
        · next due =>
            obtain ⟨_, _, result, _⟩ := popDue_spec inv.heap cpu due
            rw [result] at ended
            simp at ended
        · next calm =>
            rw [if_neg calm] at armed ⊢
            exact inv.heap.none_due (Bool.eq_false_iff.mpr calm) armed
    · cases taken
  case cancelled => exact inv.late

/-- In every run whose sections leave timers alone between drain and callback,
and whose periodic deadlines stay on the clock, the timers keep their
contract. -/
theorem timer_heap {labels : List Label}
    (run : Steps (Guarded Timers.step Undisturbed) Timers.initial labels s) : Contract s := by
  have inv : Inv s := run.invariant (fun _ _ _ old next => old.step next.1 next.2) .initial
  exact inv.contract

/-- A test that is enough for `Undisturbed`, for sections that do not arm or
cancel. -/
def undisturbedCheck (s : State) : Label → Bool
  | .armAt _ _ => false
  | .armPeriodic _ _ _ => false
  | .cancel _ => false
  | .tick _ now => overflowCheck now
  | .pop cpu => (s.drains cpu).all fun d => overflowCheck d.now
  | _ => true
where
  overflowCheck (now : Nat) : Bool :=
    decide (now + (s.timers (s.heap.arr 0)).period < clockWord)

theorem undisturbedCheck_sound {label : Label}
    (passed : undisturbedCheck s label = true) : Undisturbed s label := by
  have fits : ∀ now, undisturbedCheck.overflowCheck s now = true →
      NoOverflow s now := fun now small _ _ => of_decide_eq_true small
  cases label with
  | armAt | armPeriodic | cancel => cases passed
  | tick _ now => exact fits now passed
  | pop =>
    intro d found
    simp only [undisturbedCheck, found, all_some] at passed
    exact fits d.now passed
  | _ => trivial

/-- Two timers are armed before anything is drained. -/
def twoArmed : State :=
  armSection (armSection initial 1 5 0) 2 ((0 + 4) % clockWord) 4

/-- The drain at time 9: the periodic timer, then the other one. -/
def drainBoth : List Label :=
  [.tick 0 9, .check 0, .call 0, .ret 0, .pop 0, .check 0, .call 0, .ret 0, .pop 0]

theorem twoArmed_run : Steps (Guarded Timers.step Undisturbed) Timers.initial
    [.armAt 1 5, .armPeriodic 2 0 4] twoArmed := by
  refine .cons ⟨rfl, fun cpu => rfl⟩ (.cons ⟨rfl, fun cpu => ?_⟩ (.nil _))
  obtain ⟨_, _, _, result, _⟩ := armSection_spec HeapOk.initial 1 5 0
  rfl

theorem timer_heap_drainBoth : ∃ s, Steps (Guarded Timers.step Undisturbed) Timers.initial
      ([.armAt 1 5, .armPeriodic 2 0 4] ++ drainBoth) s ∧
    s.log = [.fired 0 1, .drained 0 1 true 9 5 0, .fired 0 2,
      .drained 0 2 false 9 4 13, .began 0 9, .armed 2 false, .armed 1 true] ∧ Contract s := by
  have followed : (followRun (checked exec undisturbedCheck) twoArmed drainBoth).map State.log =
      some [.fired 0 1, .drained 0 1 true 9 5 0, .fired 0 2, .drained 0 2 false 9 4 13,
        .began 0 9, .armed 2 false, .armed 1 true] := by
    decide +kernel
  obtain ⟨s, later, seen⟩ := Steps.guarded_of_followed undisturbedCheck_sound followed
  have run := twoArmed_run.append later
  exact ⟨s, run, seen, timer_heap run⟩

/-- A timer is cancelled by another CPU between the comparison of its
generation and the call of its callback. -/
def lateCancel : List Label :=
  [.armAt 1 5, .tick 0 10, .check 0, .cancel 1, .call 0]

/-- A periodic timer whose period is the largest number of the clock. -/
def wrappedPeriod : List Label :=
  [.armPeriodic 1 5 (clockWord - 1), .tick 0 5, .check 0, .call 0, .ret 0, .pop 0]

/-- A callback is called after its timer was cancelled; a drain takes a periodic
timer twice. -/
theorem timer_heap_disturbed :
    (∃ s, Steps Timers.step Timers.initial lateCancel s ∧ ¬ Always NotCancelled s.log) ∧
    ∃ s, Steps Timers.step Timers.initial wrappedPeriod s ∧ ¬ Always OncePerDrain s.log := by
  have late : (followRun exec Timers.initial lateCancel).map State.log =
      some [.fired 0 1, .cancelled 1, .drained 0 1 true 10 5 0, .began 0 10, .armed 1 true] := by
    decide +kernel
  have wrapped : (followRun exec Timers.initial wrappedPeriod).map State.log =
      some [.drained 0 1 false 5 4 4, .fired 0 1, .drained 0 1 false 5 4 4,
        .began 0 5, .armed 1 false] := by
    decide +kernel
  obtain ⟨s, run, seen⟩ := Steps.of_followed late
  obtain ⟨s', run', seen'⟩ := Steps.of_followed wrapped
  refine ⟨⟨s, run, ?_⟩, s', run', ?_⟩
  · rw [seen]
    rintro ⟨calm, _⟩
    cases calm
  · rw [seen']
    rintro ⟨first, _⟩
    cases first

end Steps

end MainDob.Kernel.Timers
