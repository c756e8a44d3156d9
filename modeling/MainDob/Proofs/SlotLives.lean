/-
Purpose: One entry of the timer pools by itself: its steps, who makes them, and what they keep.
Main exports: Flight, Entry, Actor
-/
import MainDob.Kernel.AsyncTimers

namespace MainDob.Kernel.AsyncTimers

open List Function

/-! ### Entries and their steps -/

/-- A drain that has taken the timer of the entry. -/
inductive Flight where
  | popped (fireGen : Nat)
  | calling (callback : Option Callback)
deriving DecidableEq

/-- What concerns one entry: the entry, its timer, the drains that hold the
timer, the calls on the entry and the notes about it. -/
structure Entry where
  slot : Slot
  armed : Bool
  period : Nat
  gen : Nat
  armedBy : Nat
  flights : Nat → Option Flight
  calls : Nat → Option Call
  notes : List Note

/-- Who makes a step: a process, in a call of its own or in its clean-up, an
expiry callback, the timer heap, or code that only touches ports. -/
inductive Actor where
  | process (pid : Nat)
  | callback
  | wheel
  | ipc
deriving DecidableEq

/-- Nothing is under way on the entry, and its timer is not armed. -/
structure Rest (e : Entry) : Prop where
  unarmed : e.armed = false
  flights : ∀ cpu, e.flights cpu = none
  calls : ∀ thread, e.calls thread = none

/-- A thread goes on with a call on the entry, or has done with it. -/
def Entry.setCall (e : Entry) (thread : Nat) (call : Option Call) : Entry :=
  { e with calls := Function.update e.calls thread call }

/-- A drain goes on with the timer of the entry, or has done with it. -/
def Entry.setFlight (e : Entry) (cpu : Nat) (flight : Option Flight) : Entry :=
  { e with flights := Function.update e.flights cpu flight }

theorem Entry.calls_setCall {e : Entry} {thread other : Nat} {call : Option Call} {c : Call}
    (isCall : (e.setCall thread call).calls other = some c) :
    other = thread ∧ call = some c ∨ other ≠ thread ∧ e.calls other = some c := by
  by_cases same : other = thread
  · refine .inl ⟨same, ?_⟩
    simpa [Entry.setCall, same] using isCall
  · refine .inr ⟨same, ?_⟩
    simpa [Entry.setCall, same] using isCall

/-- `used = false`. -/
def Entry.free (e : Entry) : Entry :=
  { e with slot := { e.slot with used := false } }

/-- The part of `sys_timer_set` after the entry is taken. -/
def Pc.arms : Pc → Bool
  | .setArm _ _ _ _ | .setFail _ => true
  | _ => false

/-- The part of `sys_timer_cancel` and of the clean-up after the check. -/
def Pc.ends : Pc → Bool
  | .cancelDetach _ | .cancelFree _ | .scanDetach _ | .scanFree _ => true
  | _ => false

/-- The steps of an entry of `s_timer_pool` and of one of `s_watchdogs`. -/
inductive Move (t : Nat) : Actor → Entry → Entry → Prop where
  | take {e : Entry} (thread pid word : Nat) (pc : Pc) (rest : Rest e)
      (unused : e.slot.used = false)
      (which : (t < timerPoolMax ∧ ∃ delayMs once,
          pc = .setArm t word delayMs once) ∨ (timerPoolMax ≤ t ∧ pc = .dogRefresh t word)) :
      Move t (.process pid) e ({ e with slot := ⟨true, pid, word, e.slot.stamp + 1⟩ }.setCall thread
          (some ⟨pid, e.slot.stamp + 1, pc⟩))
  | cancelling {e : Entry} (thread pid : Nat) (pc : Pc)
      (used : e.slot.used = true) (owner : e.slot.ownerPid = pid)
      (timer : t < timerPoolMax)
      (which : pc = .cancelDetach t ∨ pc = .scanDetach t) :
      Move t (.process pid) e
        ({ e with notes := .cancelled t e.slot.stamp :: e.notes }.setCall thread
          (some ⟨pid, e.slot.stamp, pc⟩))
  | dog {e : Entry} (thread pid : Nat) (pc : Pc) (slot : Slot)
      (used : e.slot.used = true) (owner : e.slot.ownerPid = pid)
      (watchdog : timerPoolMax ≤ t) (sameOwner : slot.ownerPid = pid)
      (sameStamp : slot.stamp = e.slot.stamp) :
      Move t (.process pid) e ({ e with slot := slot }.setCall thread (some ⟨pid, slot.stamp, pc⟩))
  | armed {e : Entry} (thread gen period port : Nat) (once : Bool) (call : Call)
      (mine : e.calls thread = some call) (short : once = true → period = 0)
      (which : (t < timerPoolMax ∧ ∃ delayMs, call.pc = .setArm t port delayMs once) ∨
        (timerPoolMax ≤ t ∧ once = true ∧ ∀ cpu, e.flights cpu = none)) :
      Move t (.process call.pid) e ({ e with
          armed := true
          period := period
          gen := gen
          armedBy := call.stamp
          notes := if t < timerPoolMax ∧ once = true then
              .started t call.stamp port :: e.notes
            else e.notes }.setCall thread none)
  | refused {e : Entry} (thread gen period : Nat) (call : Call) (next : Pc)
      (mine : e.calls thread = some call)
      (which : t < timerPoolMax → (next = call.pc ∨ next = .setFail t) ∧ call.pc.arms = true) :
      Move t (.process call.pid) e ({ e with
          armed := false
          period := period
          gen := gen
          armedBy := call.stamp }.setCall thread
            (some { call with pc := next }))
  | detached {e : Entry} (thread gen period : Nat) (call : Call)
      (next : Option Pc) (mine : e.calls thread = some call)
      (which : t < timerPoolMax → call.pc.ends = true ∧
        ∀ pc ∈ next, pc.ends = true ∧ pc.arms = false) :
      Move t (.process call.pid) e
        ({ e with armed := false, period := period, gen := gen }.setCall thread
          (next.map fun pc => { call with pc := pc }))
  | freed {e : Entry} (thread : Nat) (call : Call)
      (mine : e.calls thread = some call)
      (which : t < timerPoolMax → call.pc = .setFail t ∨ call.pc.ends = true) :
      Move t (.process call.pid) e (e.free.setCall thread none)
  | pop {e : Entry} (cpu : Nat) (idle : e.flights cpu = none)
      (wasArmed : e.armed = true) :
      Move t .wheel e ({ e with armed := decide (e.period ≠ 0) }.setFlight cpu
        (some (.popped e.gen)))
  | check {e : Entry} (cpu fireGen : Nat)
      (holds : e.flights cpu = some (.popped fireGen)) :
      Move t .wheel e (e.setFlight cpu (if e.gen = fireGen then some (.calling none) else none))
  | read {e : Entry} (cpu : Nat) (timer : t < timerPoolMax)
      (holds : e.flights cpu = some (.calling none)) :
      Move t .callback e (e.setFlight cpu
        (if e.slot.used then some (.calling (some .posting)) else none))
  | lookup {e : Entry} (cpu index : Nat) (timer : t < timerPoolMax)
      (holds : e.flights cpu = some (.calling (some .posting))) :
      Move t .callback e (e.setFlight cpu (some (.calling (some (.allocating e.slot.word index)))))
  | alloc {e : Entry} (cpu port index : Nat) (timer : t < timerPoolMax)
      (holds : e.flights cpu = some (.calling (some (.allocating port index)))) :
      Move t .callback e (e.setFlight cpu (some (.calling (some (.enqueuing port index)))))
  | post {e : Entry} (cpu port index : Nat) (timer : t < timerPoolMax)
      (holds : e.flights cpu = some (.calling (some (.enqueuing port index)))) :
      Move t .callback e ({ e with notes := .posted t e.slot.stamp port :: e.notes
          }.setFlight cpu (some (.calling (some .freeing))))
  | drop {e : Entry} (cpu : Nat) (stage : Callback) (timer : t < timerPoolMax)
      (holds : e.flights cpu = some (.calling (some stage)))
      (lost : e.period = 0 → .cancelled t e.slot.stamp ∈ e.notes) :
      Move t .callback e (e.setFlight cpu (some (.calling (some .freeing))))
  | freeing {e : Entry} (cpu : Nat) (timer : t < timerPoolMax)
      (holds : e.flights cpu = some (.calling (some .freeing))) :
      Move t .callback e (e.setFlight cpu
        (if e.period = 0 then some (.calling (some .releasing)) else none))
  | release {e : Entry} (cpu : Nat) (timer : t < timerPoolMax)
      (holds : e.flights cpu = some (.calling (some .releasing))) :
      Move t .callback e (e.free.setFlight cpu none)
  | bite {e : Entry} (cpu : Nat) (watchdog : timerPoolMax ≤ t)
      (holds : e.flights cpu = some (.calling none)) :
      Move t .callback e (e.free.setFlight cpu (if e.slot.used then
          some (.calling (some (.killing e.slot.ownerPid)))
        else none))
  | kill {e : Entry} (cpu pid : Nat) (watchdog : timerPoolMax ≤ t)
      (holds : e.flights cpu = some (.calling (some (.killing pid)))) :
      Move t .callback e (e.setFlight cpu none)

/-! ### Ownership -/

/-- The calls on the entry are those of its owner, in this life; its timer was
armed in this life; and a watchdog is not armed while an expiry of it is being
served. -/
structure Sound (t : Nat) (e : Entry) : Prop where
  calls : ∀ thread call, e.calls thread = some call →
    call.pid = e.slot.ownerPid ∧ call.stamp = e.slot.stamp
  armedBy : e.armed = true ∨ (∃ cpu, e.flights cpu ≠ none) → e.armedBy = e.slot.stamp
  dogs : timerPoolMax ≤ t → e.armed = true → (∀ cpu, e.flights cpu = none) ∧ e.period = 0

theorem flying_of_update {flights : Nat → Option Flight} {cpu : Nat} {flight : Option Flight}
    (held : flights cpu ≠ none) (flying : ∃ c, Function.update flights cpu flight c ≠ none) :
    ∃ c, flights c ≠ none := by
  obtain ⟨c, isFlying⟩ := flying
  by_cases same : c = cpu
  · exact ⟨cpu, held⟩
  · rw [update_of_ne same] at isFlying
    exact ⟨c, isFlying⟩

namespace Sound

variable {t : Nat} {e e' : Entry} {who : Actor}

section

variable (sound : Sound t e)
include sound

theorem setCall (thread : Nat) (call : Option Call) (mine : ∀ c ∈ call, c.pid = e.slot.ownerPid ∧
    c.stamp = e.slot.stamp) : Sound t (e.setCall thread call) where
  calls := by
    intro other c isCall
    rcases Entry.calls_setCall isCall with ⟨_, new⟩ | ⟨_, old⟩
    · exact mine c new
    · exact sound.calls other c old
  armedBy := sound.armedBy
  dogs := sound.dogs

theorem setFlight {cpu : Nat} (flight : Option Flight)
    (held : e.flights cpu ≠ none) : Sound t (e.setFlight cpu flight) where
  calls := sound.calls
  armedBy := by
    rintro (armed | flying)
    · exact sound.armedBy (.inl armed)
    · exact sound.armedBy (.inr (flying_of_update held flying))
  dogs := fun watchdog armed => absurd ((sound.dogs watchdog armed).1 cpu) held

theorem free : Sound t e.free := { sound with }

theorem move (move : Move t who e e') : Sound t e' := by
  cases move with
  | take _ _ _ _ rest =>
    refine ⟨fun other c isCall => ?_, ?_, ?_⟩
    · rcases Entry.calls_setCall isCall with ⟨_, ⟨⟩⟩ | ⟨_, old⟩
      · exact ⟨rfl, rfl⟩
      · exact absurd old (by simp [rest.calls])
    · rintro (armed | ⟨cpu, flying⟩)
      · exact absurd (rest.unarmed.symm.trans armed) (by decide)
      · exact absurd (rest.flights cpu) flying
    · intro _ armed
      exact absurd (rest.unarmed.symm.trans armed) (by decide)
  | cancelling thread _ _ _ owner =>
    have noted : Sound t { e with notes := .cancelled t e.slot.stamp :: e.notes } := { sound with }
    refine noted.setCall thread _ ?_
    rintro _ ⟨⟩
    exact ⟨owner.symm, rfl⟩
  | dog thread _ _ slot _ owner _ sameOwner sameStamp =>
    have reslotted : Sound t { e with slot := slot } := by
      refine ⟨fun other c isCall => ?_, fun live => ?_, sound.dogs⟩
      · rw [sameOwner, sameStamp, ← owner]
        exact sound.calls other c isCall
      · exact (sound.armedBy live).trans sameStamp.symm
    refine reslotted.setCall thread _ ?_
    rintro _ ⟨⟩
    exact ⟨sameOwner.symm, rfl⟩
  | armed thread gen period port once call mine short which =>
    obtain ⟨_, stamp⟩ := sound.calls thread call mine
    have rearmed : Sound t { e with
        armed := true
        period := period
        gen := gen
        armedBy := call.stamp
        notes := if t < timerPoolMax ∧ once = true then
            .started t call.stamp port :: e.notes
          else e.notes } := by
      refine ⟨sound.calls, fun _ => stamp, fun watchdog _ => ?_⟩
      rcases which with ⟨timer, _⟩ | ⟨_, isOnce, none⟩
      · omega
      · exact ⟨none, short isOnce⟩
    exact rearmed.setCall thread none (by simp)
  | refused thread gen period call _ mine =>
    have owned := sound.calls thread call mine
    have unarmed : Sound t { e with
        armed := false
        period := period
        gen := gen
        armedBy := call.stamp } :=
      ⟨sound.calls, fun _ => owned.2, fun _ armed => by cases armed⟩
    refine unarmed.setCall thread _ ?_
    rintro _ ⟨⟩
    exact owned
  | detached thread gen period call _ mine =>
    have owned := sound.calls thread call mine
    have unarmed : Sound t { e with armed := false, period := period, gen := gen } :=
      ⟨sound.calls, fun live => sound.armedBy
        (.inr (live.resolve_left (by simp))), fun _ armed => by cases armed⟩
    refine unarmed.setCall thread _ fun c isCall => ?_
    obtain ⟨_, _, rfl⟩ := Option.map_eq_some_iff.mp isCall
    exact owned
  | freed thread => exact sound.free.setCall thread none (by simp)
  | pop _ _ wasArmed =>
    refine ⟨sound.calls, fun _ => sound.armedBy (.inl wasArmed), fun watchdog armed => ?_⟩
    have once := (sound.dogs watchdog wasArmed).2
    simp [Entry.setFlight, once] at armed
  | check _ _ holds => exact sound.setFlight _ (by simp [holds])
  | read _ _ holds => exact sound.setFlight _ (by simp [holds])
  | lookup _ _ _ holds => exact sound.setFlight _ (by simp [holds])
  | alloc _ _ _ _ holds => exact sound.setFlight _ (by simp [holds])
  | post _ port _ _ holds =>
    have noted : Sound t { e with notes := .posted t e.slot.stamp port :: e.notes } :=
      { sound with }
    exact noted.setFlight _ (by simp [holds])
  | drop _ _ _ holds => exact sound.setFlight _ (by simp [holds])
  | freeing _ _ holds => exact sound.setFlight _ (by simp [holds])
  | release _ _ holds => exact sound.free.setFlight _ (by simp [Entry.free, holds])
  | bite _ _ holds => exact sound.free.setFlight _ (by simp [Entry.free, holds])
  | kill _ _ _ holds => exact sound.setFlight _ (by simp [holds])

theorem acts (move : Move t who e e') (used : e.slot.used = true) :
    who = .process e.slot.ownerPid ∨ who = .wheel ∨ who = .callback ∧ e.armedBy = e.slot.stamp := by
  have fired : ∀ {cpu flight}, e.flights cpu = some flight →
      e.armedBy = e.slot.stamp := fun holds =>
    sound.armedBy (.inr ⟨_, by rw [holds]; nofun⟩)
  cases move with
  | take _ _ _ _ _ unused => exact absurd (unused.symm.trans used) (by decide)
  | cancelling _ _ _ _ owner => exact .inl (by rw [owner])
  | dog _ _ _ _ _ owner => exact .inl (by rw [owner])
  | armed thread gen period port once call mine
  | refused thread gen period call next mine
  | detached thread gen period call next mine
  | freed thread call mine => exact .inl (by rw [(sound.calls thread call mine).1])
  | pop | check => exact .inr (.inl rfl)
  | read _ _ holds | lookup _ _ _ holds | alloc _ _ _ _ holds | post _ _ _ _ holds
  | drop _ _ _ holds | freeing _ _ holds
  | release _ _ holds => exact .inr (.inr ⟨rfl, fired holds⟩)
  | bite _ _ holds => exact .inr (.inr ⟨rfl, fired holds⟩)
  | kill _ _ _ holds => exact .inr (.inr ⟨rfl, fired holds⟩)

theorem watched (move : Move t who e e') (watchdog : timerPoolMax ≤ t)
    (armed : e.armed = true) : who ≠ .callback := by
  have idle := (sound.dogs watchdog armed).1
  rintro rfl
  cases move with
  | read _ _ holds | lookup _ _ _ holds | alloc _ _ _ _ holds | post _ _ _ _ holds
  | drop _ _ _ holds | freeing _ _ holds | release _ _ holds | bite _ _ holds
  | kill _ _ _ holds =>
    rw [idle] at holds
    cases holds

end

end Sound

/-! ### The event of a one-shot timer -/

/-- The life a note is about. -/
def Note.stamp : Note → Nat
  | .started _ stamp _ | .cancelled _ stamp | .posted _ stamp _ => stamp

/-- The port an event of a life went to. -/
def Note.portOf (stamp : Nat) : Note → Option Nat
  | .posted _ n port => if n = stamp then some port else none
  | _ => none

/-- The ports the events of a life went to, the latest first. -/
def ports (stamp : Nat) (notes : List Note) : List Nat :=
  notes.filterMap (Note.portOf stamp)

/-- The event is still to be posted; the port can have been read already. -/
def Flight.early (gen port : Nat) : Flight → Prop
  | .popped fireGen => gen = fireGen
  | .calling none | .calling (some .posting) => True
  | .calling (some (.allocating p _)) | .calling (some (.enqueuing p _)) =>
    p = port
  | _ => False

/-- The callback has posted the event. -/
def Flight.late : Flight → Prop
  | .calling (some .freeing) | .calling (some .releasing) => True
  | _ => False

/-- The event is to come: the timer is armed, or one drain has taken it. -/
structure Pending (e : Entry) (p : Nat) : Prop where
  used : e.slot.used = true
  port : e.slot.word = p
  unposted : ports e.slot.stamp e.notes = []
  once : e.period = 0
  place : (e.armed = true ∧ ∀ cpu, e.flights cpu = none) ∨
    (e.armed = false ∧ ∃ cpu flight, e.flights cpu = some flight ∧
      flight.early e.gen p ∧ ∀ other, other ≠ cpu → e.flights other = none)

/-- The event has been posted. -/
structure Done (e : Entry) (port : Nat) : Prop where
  one : ports e.slot.stamp e.notes = [port]
  unarmed : e.armed = false
  flights : ∀ cpu flight, e.flights cpu = some flight → flight.late

/-- What an entry of `s_timer_pool` keeps. -/
structure Lives (t : Nat) (e : Entry) : Prop where
  past : ∀ note ∈ e.notes, note.stamp ≤ e.slot.stamp
  kinds : ∀ thread call, e.calls thread = some call → call.pc.arms = true ∨ call.pc.ends = true
  alone : ∀ thread thread' call call', e.calls thread = some call →
    e.calls thread' = some call' → call.pc.arms = true → call'.pc.arms = true → thread = thread'
  unborn : ∀ thread call, e.calls thread = some call → call.pc.arms = true →
    ∀ port, .started t e.slot.stamp port ∉ e.notes
  arming : ∀ thread call port delayMs once,
    e.calls thread = some call → call.pc = .setArm t port delayMs once →
    e.armed = false ∧ (∀ cpu, e.flights cpu = none) ∧ ports e.slot.stamp e.notes = [] ∧
      e.slot.word = port ∧ (e.slot.used = true ∨ .cancelled t e.slot.stamp ∈ e.notes)
  ending : ∀ thread call, e.calls thread = some call → call.pc.ends = true →
    .cancelled t e.slot.stamp ∈ e.notes
  lives : ∀ n port, .started t n port ∈ e.notes → .cancelled t n ∉ e.notes → (n < e.slot.stamp →
    ports n e.notes = [port]) ∧ (n = e.slot.stamp → Pending e port ∨ Done e port)

theorem ports_eq_nil {n : Nat} {notes : List Note}
    (other : ∀ note ∈ notes, note.stamp ≠ n) : ports n notes = [] := by
  refine filterMap_eq_nil_iff.mpr fun note member => ?_
  have apart := other note member
  cases note with
  | posted => exact if_neg apart
  | started | cancelled => rfl

theorem Pending.early {e : Entry} {port cpu : Nat} {flight : Flight}
    (pending : Pending e port) (held : e.flights cpu = some flight) :
    e.armed = false ∧ flight.early e.gen port ∧ ∀ other, other ≠ cpu → e.flights other = none := by
  rcases pending.place with ⟨_, idle⟩ | ⟨unarmed, c, f, holds, early, alone⟩
  · rw [idle] at held
    cases held
  by_cases same : cpu = c
  · subst same
    rw [holds, Option.some.injEq] at held
    exact ⟨unarmed, held ▸ early, alone⟩
  · rw [alone cpu same] at held
    cases held

namespace Lives

variable {t : Nat} {e : Entry}

section

variable (lives : Lives t e)
include lives

theorem not_arming {thread port delayMs cpu : Nat} {call : Call} {once : Bool} {flight : Flight}
    (held : e.flights cpu = some flight) (isCall : e.calls thread = some call)
    (isArm : call.pc = .setArm t port delayMs once) : False := by
  rw [(lives.arming thread call port delayMs once isCall isArm).2.1] at held
  cases held

theorem lives_setCall (thread : Nat) (call : Option Call) (n port : Nat)
    (started : .started t n port ∈ e.notes) (running : .cancelled t n ∉ e.notes) :
    (n < e.slot.stamp → ports n e.notes = [port]) ∧ (n = e.slot.stamp →
      Pending (e.setCall thread call) port ∨ Done (e.setCall thread call) port) := by
  obtain ⟨earlier, now⟩ := lives.lives n port started running
  refine ⟨earlier, fun isNow => (now isNow).imp (fun pending => ?_) fun done => ?_⟩
  · exact { pending with }
  · exact { done with }

theorem endCall (thread : Nat) : Lives t (e.setCall thread none) := by
  have old : ∀ {other c}, (e.setCall thread none).calls other = some c →
      e.calls other = some c := by
    intro other c isCall
    rcases Entry.calls_setCall isCall with ⟨_, ⟨⟩⟩ | ⟨_, old⟩
    exact old
  exact {
    past := lives.past
    kinds := fun _ _ isCall => lives.kinds _ _ (old isCall)
    alone := fun _ _ _ _ first second => lives.alone _ _ _ _ (old first) (old second)
    unborn := fun _ _ isCall => lives.unborn _ _ (old isCall)
    arming := fun _ _ _ _ _ isCall => lives.arming _ _ _ _ _ (old isCall)
    ending := fun _ _ isCall => lives.ending _ _ (old isCall)
    lives := lives.lives_setCall thread none }

theorem goOn {thread : Nat} {call : Call} {next : Pc} (mine : e.calls thread = some call)
    (which : call.pc.arms = true ∧ (next = call.pc ∨ next = .setFail t) ∨
      call.pc.ends = true ∧ next.ends = true ∧ next.arms = false) :
    Lives t (e.setCall thread (some { call with pc := next })) := by
  have arms : next.arms = true → call.pc.arms = true := by
    rcases which with ⟨isArm, _⟩ | ⟨_, _, noArm⟩
    · exact fun _ => isArm
    · exact fun isArm => absurd (noArm.symm.trans isArm) (by decide)
  have ends : next.ends = true → .cancelled t e.slot.stamp ∈ e.notes := by
    intro isEnd
    rcases which with ⟨isArm, rfl | rfl⟩ | ⟨isEnding, _, _⟩
    · exact lives.ending thread call mine isEnd
    · cases isEnd
    · exact lives.ending thread call mine isEnding
  have origin : ∀ {other c}, (e.setCall thread (some
      { call with pc := next })).calls other = some c →
      ∃ old, e.calls other = some old ∧ (c.pc.arms = true → old.pc.arms = true) := by
    intro other c isCall
    rcases Entry.calls_setCall isCall with ⟨rfl, ⟨⟩⟩ | ⟨_, old⟩
    · exact ⟨call, mine, arms⟩
    · exact ⟨c, old, id⟩
  refine {
    past := lives.past
    kinds := ?_
    alone := ?_
    unborn := ?_
    arming := ?_
    ending := ?_
    lives := lives.lives_setCall thread _ }
  · intro other c isCall
    rcases Entry.calls_setCall isCall with ⟨_, ⟨⟩⟩ | ⟨_, old⟩
    · rcases which with ⟨isArm, rfl | rfl⟩ | ⟨_, isEnd, _⟩
      · exact .inl isArm
      · exact .inl rfl
      · exact .inr isEnd
    · exact lives.kinds other c old
  · intro one other c c' first second isArm isArm'
    obtain ⟨old, was, wasArm⟩ := origin first
    obtain ⟨old', was', wasArm'⟩ := origin second
    exact lives.alone one other old old' was was' (wasArm isArm) (wasArm' isArm')
  · intro other c isCall isArm
    obtain ⟨old, was, wasArm⟩ := origin isCall
    exact lives.unborn other old was (wasArm isArm)
  · intro other c port delayMs once isCall isArm
    rcases Entry.calls_setCall isCall with ⟨rfl, ⟨⟩⟩ | ⟨_, old⟩
    · rcases which with ⟨_, rfl | rfl⟩ | ⟨_, _, noArm⟩
      · exact lives.arming _ call port delayMs once mine isArm
      · cases isArm
      have isArm : next = .setArm t port delayMs once := isArm
      rw [isArm] at noArm
      cases noArm
    · exact lives.arming other c port delayMs once old isArm
  · intro other c isCall isEnd
    rcases Entry.calls_setCall isCall with ⟨rfl, ⟨⟩⟩ | ⟨_, old⟩
    · exact ends isEnd
    · exact lives.ending other c old isEnd

theorem disarm (period gen armedBy : Nat)
    (ended : ∀ port, .started t e.slot.stamp port ∈ e.notes → .cancelled t e.slot.stamp ∈ e.notes) :
    Lives t { e with armed := false, period := period, gen := gen, armedBy := armedBy } where
  past := lives.past
  kinds := lives.kinds
  alone := lives.alone
  unborn := lives.unborn
  arming := fun thread call port delayMs once isCall isArm =>
    ⟨rfl, (lives.arming thread call port delayMs once isCall isArm).2⟩
  ending := lives.ending
  lives := by
    intro n port started running
    refine ⟨(lives.lives n port started running).1, ?_⟩
    rintro rfl
    exact absurd (ended port started) running

theorem free (ended : ∀ port, .started t e.slot.stamp port ∈ e.notes →
      .cancelled t e.slot.stamp ∉ e.notes → Done e port)
    (armings : ∀ thread call port delayMs once, e.calls thread = some call →
      call.pc = .setArm t port delayMs once →
      .cancelled t e.slot.stamp ∈ e.notes) : Lives t e.free where
  past := lives.past
  kinds := lives.kinds
  alone := lives.alone
  unborn := lives.unborn
  arming := by
    intro thread call port delayMs once isCall isArm
    obtain ⟨unarmed, idle, unposted, isPort, _⟩ :=
      lives.arming thread call port delayMs once isCall isArm
    exact ⟨unarmed, idle, unposted, isPort,
      .inr (armings thread call port delayMs once isCall isArm)⟩
  ending := lives.ending
  lives := by
    intro n port started running
    refine ⟨(lives.lives n port started running).1, ?_⟩
    rintro rfl
    have done := ended port started running
    exact .inr { done with }

theorem fly {cpu : Nat} {flight : Flight} (held : e.flights cpu = some flight)
    (next : Option Flight) (early : ∀ port, Pending e port → .cancelled t e.slot.stamp ∉ e.notes →
      flight.early e.gen port → ∃ f, next = some f ∧ f.early e.gen port)
    (late : flight.late → ∀ f ∈ next, f.late) : Lives t (e.setFlight cpu next) where
  past := lives.past
  kinds := lives.kinds
  alone := lives.alone
  unborn := lives.unborn
  arming _ _ _ _ _ isCall isArm := (lives.not_arming held isCall isArm).elim
  ending := lives.ending
  lives := by
    intro n port started running
    refine ⟨(lives.lives n port started running).1, fun isNow => ?_⟩
    rcases (lives.lives n port started running).2 isNow with pending | done
    · obtain ⟨unarmed, isEarly, alone⟩ := pending.early held
      have now : n = e.slot.stamp := isNow
      obtain ⟨f, isNext, earlyToo⟩ := early port pending (now ▸ running) isEarly
      refine .inl ⟨pending.used, pending.port, pending.unposted, pending.once,
        .inr ⟨unarmed, cpu, f, ?_, earlyToo, fun other apart => ?_⟩⟩
      · simp [Entry.setFlight, isNext]
      · simp only [Entry.setFlight, update_of_ne apart]
        exact alone other apart
    · refine .inr ⟨done.one, done.unarmed, fun other f holds => ?_⟩
      by_cases same : other = cpu
      · rw [same] at holds
        simp only [Entry.setFlight, update_self] at holds
        exact late (done.flights cpu flight held) f holds
      · simp only [Entry.setFlight, update_of_ne same] at holds
        exact done.flights other f holds

theorem take (thread pid word delayMs : Nat) (once : Bool)
    (rest : Rest e) (unused : e.slot.used = false) :
    Lives t ({ e with slot := ⟨true, pid, word, e.slot.stamp + 1⟩ }.setCall
      thread (some ⟨pid, e.slot.stamp + 1, .setArm t word delayMs once⟩)) := by
  have new : ∀ {other c}, ({ e with slot := ⟨true, pid, word, e.slot.stamp + 1⟩ }.setCall thread
        (some ⟨pid, e.slot.stamp + 1, .setArm t word delayMs once⟩)).calls other = some c →
      other = thread ∧ c = ⟨pid, e.slot.stamp + 1, .setArm t word delayMs once⟩ := by
    intro other c isCall
    rcases Entry.calls_setCall isCall with ⟨here, ⟨⟩⟩ | ⟨_, old⟩
    · exact ⟨here, rfl⟩
    · exact absurd old (by simp [rest.calls])
  have unheard : ∀ note ∈ e.notes, note.stamp ≠ e.slot.stamp + 1 :=
    fun note member same => by
      have before := lives.past note member
      omega
  refine ⟨?_, ?_, ?_, ?_, ?_, ?_, ?_⟩
  · exact fun note member => Nat.le_succ_of_le (lives.past note member)
  · intro other c isCall
    rw [(new isCall).2]
    exact .inl rfl
  · intro one other c c' first second _ _
    rw [(new first).1, (new second).1]
  · intro other c isCall _ port started
    exact unheard _ started rfl
  · intro other c port delay isOnce isCall isArm
    rw [(new isCall).2] at isArm
    cases isArm
    exact ⟨rest.unarmed, rest.flights, ports_eq_nil unheard, rfl, .inl rfl⟩
  · intro other c isCall isEnd
    rw [(new isCall).2] at isEnd
    cases isEnd
  intro n port started running
  refine ⟨fun _ => ?_, fun isNow => absurd isNow (unheard _ started)⟩
  obtain ⟨earlier, now⟩ := lives.lives n port started running
  rcases Nat.lt_or_eq_of_le (lives.past _ started) with before | same
  · exact earlier before
  rcases now same with pending | done
  · exact absurd (unused.symm.trans pending.used) (by decide)
  · have one := done.one
    rwa [← show n = e.slot.stamp from same] at one

theorem cancelling (thread pid : Nat) {pc : Pc}
    (which : pc = .cancelDetach t ∨ pc = .scanDetach t) :
    Lives t ({ e with notes := .cancelled t e.slot.stamp :: e.notes }.setCall
      thread (some ⟨pid, e.slot.stamp, pc⟩)) := by
  have ends : pc.ends = true ∧ pc.arms = false := by
    rcases which with rfl | rfl <;> exact ⟨rfl, rfl⟩
  have origin : ∀ {other c}, ({ e with
      notes := .cancelled t e.slot.stamp :: e.notes }.setCall thread
        (some ⟨pid, e.slot.stamp, pc⟩)).calls other = some c →
      c.pc.arms = true → e.calls other = some c := by
    intro other c isCall isArm
    rcases Entry.calls_setCall isCall with ⟨_, ⟨⟩⟩ | ⟨_, old⟩
    · exact absurd (ends.2.symm.trans isArm) (by decide)
    · exact old
  refine ⟨?_, ?_, ?_, ?_, ?_, ?_, ?_⟩
  · intro note member
    rcases mem_cons.mp member with rfl | old
    · exact Nat.le_refl _
    · exact lives.past note old
  · intro other c isCall
    rcases Entry.calls_setCall isCall with ⟨_, ⟨⟩⟩ | ⟨_, old⟩
    · exact .inr ends.1
    · exact lives.kinds other c old
  · intro one other c c' first second isArm isArm'
    exact lives.alone one other c c' (origin first isArm) (origin second isArm') isArm isArm'
  · intro other c isCall isArm port started
    rcases mem_cons.mp started with new | old
    · cases new
    · exact lives.unborn other c (origin isCall isArm) isArm port old
  · intro other c port delayMs once isCall isArm
    have old := origin isCall (by rw [isArm]; rfl)
    obtain ⟨unarmed, idle, unposted, isPort, _⟩ := lives.arming other c port delayMs once old isArm
    exact ⟨unarmed, idle, unposted, isPort, .inr mem_cons_self⟩
  · exact fun _ _ _ _ => mem_cons_self
  · intro n port started running
    rcases mem_cons.mp started with new | old
    · cases new
    have apart : n ≠ e.slot.stamp := fun same => running (by rw [same]; exact mem_cons_self)
    refine ⟨?_, fun same => absurd same apart⟩
    exact (lives.lives n port old fun cancelled => running (mem_cons_of_mem _ cancelled)).1

theorem armed {thread port delayMs : Nat} {once : Bool} {call : Call}
    (mine : e.calls thread = some call) (isArm : call.pc = .setArm t port delayMs once)
    (stamp : call.stamp = e.slot.stamp) (gen period armedBy : Nat)
    (short : once = true → period = 0) :
    Lives t ({ e with
      armed := true
      period := period
      gen := gen
      armedBy := armedBy
      notes := if once = true then .started t call.stamp port :: e.notes
        else e.notes }.setCall thread none) := by
  obtain ⟨_, idle, unposted, isPort, live⟩ :=
    lives.arming thread call port delayMs once mine isArm
  have arms : call.pc.arms = true := by
    rw [isArm]
    rfl
  have members : ∀ note, note ∈ (if once = true then
      .started t call.stamp port :: e.notes else e.notes) →
      (once = true ∧ note = .started t e.slot.stamp port) ∨ note ∈ e.notes := by
    intro note member
    split at member
    · next isOnce =>
        rcases mem_cons.mp member with rfl | old
        · exact .inl ⟨isOnce, by rw [stamp]⟩
        · exact .inr old
    · exact .inr member
  have kept : ∀ note ∈ e.notes, note ∈ (if once = true then
      .started t call.stamp port :: e.notes else e.notes) := by
    intro note member
    split
    · exact mem_cons_of_mem _ member
    · exact member
  have same : ∀ n, ports n (if once = true then
      .started t call.stamp port :: e.notes else e.notes) = ports n e.notes := by
    intro n
    split <;> rfl
  have origin : ∀ {other c}, ({ e with
      armed := true
      period := period
      gen := gen
      armedBy := armedBy
      notes := if once = true then .started t call.stamp port :: e.notes
        else e.notes }.setCall thread none).calls other = some c →
      other ≠ thread ∧ e.calls other = some c := by
    intro other c isCall
    rcases Entry.calls_setCall isCall with ⟨_, ⟨⟩⟩ | old
    exact old
  have quiet : ∀ {other c}, other ≠ thread → e.calls other = some c →
      c.pc.arms = true → False := fun apart isCall isArm' =>
    apart (lives.alone _ _ _ _ isCall mine isArm' arms)
  refine ⟨?_, ?_, ?_, ?_, ?_, ?_, ?_⟩
  · intro note member
    rcases members note member with ⟨_, rfl⟩ | old
    · exact Nat.le_refl _
    · exact lives.past note old
  · exact fun other c isCall => lives.kinds other c (origin isCall).2
  · intro one other c c' first second isArm' _
    exact (quiet (origin first).1 (origin first).2 isArm').elim
  · intro other c isCall isArm'
    exact (quiet (origin isCall).1 (origin isCall).2 isArm').elim
  · intro other c port' delay' once' isCall isArm'
    exact (quiet (origin isCall).1 (origin isCall).2 (by rw [isArm']; rfl)).elim
  · intro other c isCall isEnd
    exact kept _ (lives.ending other c (origin isCall).2 isEnd)
  intro n port' started running
  have running' : .cancelled t n ∉ e.notes := fun cancelled => running (kept _ cancelled)
  rcases members _ started with ⟨isOnce, isNew⟩ | old
  · injection isNew with _ isStamp isPort'
    refine ⟨fun before => absurd isStamp (Nat.ne_of_lt before), fun _ =>
      .inl ⟨?_, ?_, ?_, short isOnce, .inl ⟨rfl, idle⟩⟩⟩
    · exact live.resolve_right (by rw [← isStamp]; exact running')
    · exact isPort.trans isPort'.symm
    · exact (same _).trans unposted
  · obtain ⟨earlier, _⟩ := lives.lives n port' old running'
    refine ⟨fun before => (same n).trans (earlier before), ?_⟩
    rintro rfl
    exact absurd old (lives.unborn thread call mine arms port')

theorem pop (cpu : Nat) (wasArmed : e.armed = true) :
    Lives t ({ e with armed := decide (e.period ≠ 0) }.setFlight cpu (some (.popped e.gen))) where
  past := lives.past
  kinds := lives.kinds
  alone := lives.alone
  unborn := lives.unborn
  arming := by
    intro thread call port delayMs once isCall isArm
    have unarmed := (lives.arming thread call port delayMs once isCall isArm).1
    exact absurd (unarmed.symm.trans wasArmed) (by decide)
  ending := lives.ending
  lives := by
    intro n port started running
    refine ⟨(lives.lives n port started running).1, fun isNow => ?_⟩
    rcases (lives.lives n port started running).2 isNow with pending | done
    · rcases pending.place with ⟨_, none⟩ | ⟨unarmed, _⟩
      · refine .inl ⟨pending.used, pending.port, pending.unposted, pending.once,
          .inr ⟨?_, cpu, .popped e.gen, ?_, rfl, fun other apart => ?_⟩⟩
        · simp [Entry.setFlight, pending.once]
        · simp [Entry.setFlight]
        · simp only [Entry.setFlight, update_of_ne apart]
          exact none other
      · exact absurd (unarmed.symm.trans wasArmed) (by decide)
    · exact absurd (done.unarmed.symm.trans wasArmed) (by decide)

theorem post {cpu sent index : Nat}
    (held : e.flights cpu = some (.calling (some (.enqueuing sent index)))) :
    Lives t ({ e with notes := .posted t e.slot.stamp sent :: e.notes }.setFlight cpu
        (some (.calling (some .freeing)))) where
  past := by
    intro note member
    rcases mem_cons.mp member with rfl | old
    · exact Nat.le_refl _
    · exact lives.past note old
  kinds := lives.kinds
  alone := lives.alone
  unborn := by
    intro thread call isCall isArm port started
    rcases mem_cons.mp started with new | old
    · cases new
    · exact lives.unborn thread call isCall isArm port old
  arming _ _ _ _ _ isCall isArm := (lives.not_arming held isCall isArm).elim
  ending := fun thread call isCall isEnd =>
    mem_cons_of_mem _ (lives.ending thread call isCall isEnd)
  lives := by
    intro n port started running
    rcases mem_cons.mp started with new | old
    · cases new
    have running' : .cancelled t n ∉ e.notes := fun cancelled =>
      running (mem_cons_of_mem _ cancelled)
    obtain ⟨earlier, now⟩ := lives.lives n port old running'
    refine ⟨fun before => ?_, fun isNow => ?_⟩
    · have apart : ¬ e.slot.stamp = n := fun same => by
        have before : n < e.slot.stamp := before
        omega
      have skipped : Note.portOf n (.posted t e.slot.stamp sent) = none := if_neg apart
      exact (filterMap_cons_none skipped).trans (earlier before)
    rcases now isNow with pending | done
    · obtain ⟨unarmed, isPort, alone⟩ := pending.early held
      refine .inr ⟨?_, unarmed, fun other flight holds => ?_⟩
      · obtain rfl : sent = port := isPort
        have heard : Note.portOf e.slot.stamp (.posted t e.slot.stamp sent) = some sent :=
          if_pos rfl
        exact (filterMap_cons_some heard).trans (congrArg _ pending.unposted)
      · by_cases same : other = cpu
        · rw [same] at holds
          simp only [Entry.setFlight, update_self, Option.some.injEq] at holds
          rw [← holds]
          trivial
        · simp only [Entry.setFlight, update_of_ne same] at holds
          rw [alone other same] at holds
          cases holds
    · exact absurd (done.flights cpu _ held) id

theorem move {e' : Entry} {who : Actor} (move : Move t who e e')
    (sound : Sound t e) (timer : t < timerPoolMax) : Lives t e' := by
  cases move with
  | take thread pid word _ rest unused which =>
    rcases which with ⟨_, delayMs, once, rfl⟩ | ⟨watchdog, _⟩
    · exact lives.take thread pid word delayMs once rest unused
    · omega
  | cancelling thread pid _ _ _ _ which => exact lives.cancelling thread pid which
  | dog => omega
  | armed thread gen period _ _ call mine short which =>
    rcases which with ⟨_, delayMs, isArm⟩ | ⟨watchdog, _⟩
    · simp only [timer, true_and]
      exact lives.armed mine isArm (sound.calls thread call mine).2 gen period call.stamp short
    · omega
  | refused thread gen period call _ mine which =>
    obtain ⟨isNext, isArm⟩ := which timer
    have unarmed := lives.disarm period gen call.stamp fun port started =>
      absurd started (lives.unborn thread call mine isArm port)
    exact unarmed.goOn mine (.inl ⟨isArm, isNext⟩)
  | detached thread gen period call next mine which =>
    obtain ⟨isEnd, isNext⟩ := which timer
    have unarmed := lives.disarm period gen e.armedBy fun _ _ => lives.ending thread call mine isEnd
    cases next with
    | none => exact unarmed.endCall thread
    | some pc => exact unarmed.goOn mine (.inr ⟨isEnd, isNext pc rfl⟩)
  | freed thread call mine which =>
    refine Lives.endCall (lives.free ?_ ?_) thread
    · intro port started running
      rcases which timer with isFail | isEnd
      · exact absurd started (lives.unborn thread call mine (by rw [isFail]; rfl) port)
      · exact absurd (lives.ending thread call mine isEnd) running
    · intro other c port delayMs once isCall isArm
      rcases which timer with isFail | isEnd
      · have same := lives.alone other thread c call isCall mine
          (by rw [isArm]; rfl) (by rw [isFail]; rfl)
        rw [same, mine, Option.some.injEq] at isCall
        rw [← isCall, isFail] at isArm
        cases isArm
      · exact lives.ending thread call mine isEnd
  | pop cpu _ wasArmed => exact lives.pop cpu wasArmed
  | check _ fireGen holds =>
    refine lives.fly holds _ (fun _ _ _ isEarly => ?_) (fun late => late.elim)
    have same : e.gen = fireGen := isEarly
    exact ⟨.calling none, if_pos same, trivial⟩
  | read _ _ holds =>
    refine lives.fly holds _ (fun _ pending _ _ => ?_) (fun late => late.elim)
    exact ⟨.calling (some .posting), if_pos pending.used, trivial⟩
  | lookup _ _ _ holds =>
    exact lives.fly holds _ (fun _ pending _ _ => ⟨_, rfl, pending.port⟩) (fun late => late.elim)
  | alloc _ _ _ _ holds =>
    exact lives.fly holds _ (fun _ _ _ isPort => ⟨_, rfl, isPort⟩) (fun late => late.elim)
  | post _ _ _ _ holds => exact lives.post holds
  | drop _ _ _ holds lost =>
    -- a one-shot timer that nobody cancels does not come here
    refine lives.fly holds _ (fun _ pending running _ => ?_) fun _ f isNext => ?_
    · exact absurd (lost pending.once) running
    · cases isNext
      trivial
  | freeing _ _ holds =>
    refine lives.fly holds _ (fun _ _ _ isEarly => isEarly.elim) fun _ f isNext => ?_
    split at isNext
    · cases isNext
      trivial
    · cases isNext
  | release cpu _ holds =>
    have freed : Lives t e.free := by
      refine lives.free (fun port started running => ?_) ?_
      · refine ((lives.lives _ port started running).2 rfl).resolve_left ?_
        exact fun pending => (pending.early holds).2.1
      exact fun _ _ _ _ _ isCall isArm => (lives.not_arming holds isCall isArm).elim
    have holds' : e.free.flights cpu = some (.calling (some .releasing)) := holds
    exact freed.fly holds' none (fun _ _ _ isEarly => isEarly.elim) fun _ f isNext => by
      cases isNext
  | bite cpu watchdog | kill cpu pid watchdog => omega

end

end Lives

end MainDob.Kernel.AsyncTimers
