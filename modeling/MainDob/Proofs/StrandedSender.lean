/-
Purpose: When a sender blocked on a destroyed port is owed a wake-up. In every interleaving in
  which no message is queued behind the last marking pass of a destroy, and no direct hand-off
  goes to sleep on a reply that has come and gone, each such sender is owed one; otherwise it can
  sleep for ever.
Main exports: Held, InBatch, no_stranded_sender
-/
import MainDob.Proofs.ChannelBase
import Mathlib.Tactic.Set

namespace MainDob.Kernel.Channel

open Function (update)
open List

/-! ### Wake-ups that are still to come -/

/-- The send whose wait queue the thread has joined. -/
def Pc.listed : Pc → Option Request
  | .sendHandoff r _ | .sendPrepared r | .sendAsleep r => some r
  | _ => none

/-- The send the thread sleeps on, or will without another look. -/
def Pc.sleeping : Pc → Option Request
  | .sendHandoff r _ | .sendAsleep r => some r
  | _ => none

/-- Records a destroy has marked and has still to wake. -/
def Pc.batch : Pc → List Request
  | .destroyBatch _ batch _ => batch
  | _ => []

/-- The port whose pending senders the thread is going to mark. -/
def Pc.marks : Pc → Option PortRef
  | .destroyClosed p true | .destroyMark p | .destroyBatch p _ true => some p
  | _ => none

/-- Somebody has detached the thread and is going to unblock it. -/
def Held (s : State) (t : Thread) : Prop := ∃ w, t ∈ s.hands w

/-- A destroy is going to wake the sleepers of the request. -/
def InBatch (s : State) (r : Request) : Prop := ∃ w, r ∈ (s.pc w).batch

/-- A destroy of the port has a marking pass before it. -/
def Marking (s : State) (p : PortRef) : Prop := ∃ w, (s.pc w).marks = some p

/-- The sleeper of request `r` is owed a wake-up. -/
def WakePending (s : State) (t : Thread) (r : Request) : Prop :=
  Held s t ∨ InBatch s r ∨ (Marking s (s.requests r).port ∧ (s.requests r).replyReceived = false ∧
      r ∈ (s.ports (s.requests r).port).pendingSenders)

/-- The thread is blocked in `ipc_send_sync` for request `r`. -/
def BlockedInSend (s : State) (t : Thread) (r : Request) : Prop :=
  s.pc t = .sendAsleep r ∧ s.blocked t = true

/-- Every thread is in user mode or blocked, with no wake-up in hand. -/
def Quiescent (s : State) : Prop := ∀ t, s.hands t = [] ∧ (s.pc t = .user ∨
    (s.blocked t = true ∧ ((∃ r, s.pc t = .sendAsleep r) ∨ ∃ p, s.pc t = .recvAsleep p)))

theorem not_wakePending {s : State} (quiet : Quiescent s) (t : Thread)
    (r : Request) : ¬ WakePending s t r := by
  rintro (⟨w, held⟩ | ⟨w, member⟩ | ⟨⟨w, marks⟩, _⟩)
  · rw [(quiet w).1] at held
    cases held
  · rcases (quiet w).2 with user | ⟨_, ⟨q, asleep⟩ | ⟨p, asleep⟩⟩
    · rw [user] at member
      cases member
    · rw [asleep] at member
      cases member
    · rw [asleep] at member
      cases member
  · rcases (quiet w).2 with user | ⟨_, ⟨q, asleep⟩ | ⟨p, asleep⟩⟩
    · rw [user] at marks
      cases marks
    · rw [asleep] at marks
      cases marks
    · rw [asleep] at marks
      cases marks

/-- The steps that keep the promise of a wake-up: a message is queued on an
active port, or before a marking pass of its destroy; a direct hand-off does
not go to sleep on a reply flag that is set, unless a wake-up is still to come;
and no thread dies in the middle of its work. -/
def WakeSafe (s : State) : Label → Prop
  | .run t flag =>
    (∀ r, s.pc t = .sendPublished r → (s.ports (s.requests r).port).msgCount < portQueueMax →
      (s.ports (s.requests r).port).state = .active ∨ Marking s (s.requests r).port) ∧
    ∀ r receiver, s.pc t = .sendExtracted r receiver → flag = true →
      (s.requests r).replyReceived = true → Held s t ∨ InBatch s r
  | .kill _ | .cleanup _ | .reap _ => False
  | _ => True

/-! ### The invariant -/

/-- Who owes what to the threads inside `ipc_send_sync`. -/
structure Wakes (s : State) : Prop where
  waiters : ∀ r u, u ∈ (s.requests r).replyWait → u = (s.requests r).thread
  listed : ∀ t r, (s.pc t).listed = some r → s.blocked t = true →
    t ∈ (s.requests r).replyWait ∨ Held s t
  owed : ∀ t r, (s.pc t).sleeping = some r → s.blocked t = true →
    (s.requests r).replyReceived = true → Held s t ∨ InBatch s r
  linked : ∀ t r, (s.pc t).waiting = some r →
    (s.requests r).replyReceived = false → r ∈ (s.ports (s.requests r).port).pendingSenders
  destroyer : ∀ t r, (s.pc t).waiting = some r → (s.requests r).replyReceived = false →
    (s.ports (s.requests r).port).state = .closed → Marking s (s.requests r).port

theorem wakes_initial : Wakes initial where
  waiters := by simp [initial]
  listed := by simp [initial, Pc.listed]
  owed := by simp [initial, Pc.sleeping]
  linked := by simp [initial, Pc.waiting]
  destroyer := by simp [initial, Pc.waiting]

variable {r : Request}

theorem Pc.listed_of_sleeping {pc : Pc} (sleeping : pc.sleeping = some r) : pc.listed = some r := by
  cases pc <;> first | exact sleeping | cases sleeping

theorem Pc.waiting_of_listed {pc : Pc} (listed : pc.listed = some r) : pc.waiting = some r := by
  cases pc <;> first | exact listed | cases listed

theorem Pc.request_of_listed {pc : Pc} (listed : pc.listed = some r) : pc.request = some r :=
  request_of_published (published_of_waiting (waiting_of_listed listed))

/-- Moving from `old` to `new` joins no wait queue. -/
structure Still (old new : Pc) : Prop where
  listed : ∀ r, new.listed = some r → old.listed = some r
  sleeping : ∀ r, new.sleeping = some r → old.sleeping = some r
  waiting : ∀ r, new.waiting = some r → old.waiting = some r

/-- Neither does it drop a duty. -/
structure Calm (old new : Pc) : Prop extends Still old new where
  batch : ∀ r ∈ old.batch, r ∈ new.batch
  marks : ∀ p, old.marks = some p → new.marks = some p

theorem Calm.refl (pc : Pc) : Calm pc pc :=
  ⟨⟨fun _ same => same, fun _ same => same, fun _ same => same⟩,
    fun _ same => same, fun _ same => same⟩

variable {old new : Pc}

section

variable (outside : new.waiting = none)
include outside

theorem Still.leave : Still old new := by
  have notWaiting : ∀ r, new.waiting ≠ some r := by
    intro r inside
    rw [outside] at inside
    cases inside
  refine ⟨?_, ?_, fun r inside => absurd inside (notWaiting r)⟩
  · intro r inside
    exact absurd (Pc.waiting_of_listed inside) (notWaiting r)
  · intro r inside
    exact absurd (Pc.waiting_of_listed (Pc.listed_of_sleeping inside)) (notWaiting r)

theorem Calm.leave (noBatch : old.batch = []) (noMarks : old.marks = none) : Calm old new :=
  ⟨.leave outside, by rw [noBatch]; nofun, by rw [noMarks]; nofun⟩

theorem Calm.remark (batch : ∀ r ∈ old.batch, r ∈ new.batch)
    (same : new.marks = old.marks) : Calm old new :=
  ⟨.leave outside, batch, fun _ marks => same.trans marks⟩

end

theorem Calm.within (same : new.waiting = old.waiting)
    (awake : new.listed = none ∨ new.listed = old.listed ∧ new.sleeping = old.sleeping)
    (noBatch : old.batch = []) (noMarks : old.marks = none) : Calm old new := by
  refine ⟨⟨?_, ?_, fun _ inside => same.symm.trans inside⟩,
    by rw [noBatch]; nofun, by rw [noMarks]; nofun⟩
  · intro r inside
    rcases awake with out | ⟨joined, _⟩
    · rw [out] at inside
      cases inside
    · exact joined.symm.trans inside
  · intro r inside
    rcases awake with out | ⟨_, asleep⟩
    · rw [Pc.listed_of_sleeping inside] at out
      cases out
    · exact asleep.symm.trans inside

theorem Still.update {s : State} {t : Thread} (here : s.pc t = old) (still : Still old new)
    (u : Thread) : Still (s.pc u) (update s.pc t new u) := by
  refine update_cases (motive := fun pc : Pc => Still (s.pc u) pc) ?_
    (fun _ => (Calm.refl _).toStill)
  rintro rfl
  rw [here]
  exact still

theorem Calm.update {s : State} {t : Thread} (here : s.pc t = old) (calm : Calm old new)
    (u : Thread) : Calm (s.pc u) (update s.pc t new u) := by
  refine update_cases (motive := fun pc : Pc => Calm (s.pc u) pc) ?_ (fun _ => Calm.refl _)
  rintro rfl
  rw [here]
  exact calm

theorem Held.mono {s s' : State} (hands : ∀ w u, u ∈ s.hands w → u ∈ s'.hands w) {t : Thread}
    (held : Held s t) : Held s' t := by
  obtain ⟨w, member⟩ := held
  exact ⟨w, hands w t member⟩

/-- What a record shows to its waker. -/
def Pending.wakeView (pending : Pending) : Thread × PortRef × Bool × List Thread :=
  (pending.thread, pending.port, pending.replyReceived, pending.replyWait)

namespace Wakes

open Function (update update_of_ne update_self)

variable {s s' : State} {t : Thread}

section

variable (wakes : Wakes s)
include wakes

theorem frame (records : ∀ r, (s'.requests r).wakeView = (s.requests r).wakeView)
    (ports : ∀ u r, (s.pc u).waiting = some r → (s'.ports (s.requests r).port).wakeView =
        (s.ports (s.requests r).port).wakeView) (calm : ∀ u, Calm (s.pc u) (s'.pc u))
    (blocked : ∀ u r, (s'.pc u).listed = some r → s'.blocked u = true → s.blocked u = true)
    (held : ∀ u r, (s'.pc u).listed = some r → s'.blocked u = true → Held s u → Held s' u) :
    Wakes s' := by
  have threads : ∀ r, (s'.requests r).thread = (s.requests r).thread :=
    fun r => congrArg (fun view => view.1) (records r)
  have homes : ∀ r, (s'.requests r).port = (s.requests r).port :=
    fun r => congrArg (fun view => view.2.1) (records r)
  have received : ∀ r, (s'.requests r).replyReceived = (s.requests r).replyReceived :=
    fun r => congrArg (fun view => view.2.2.1) (records r)
  have waits : ∀ r, (s'.requests r).replyWait = (s.requests r).replyWait :=
    fun r => congrArg (fun view => view.2.2.2) (records r)
  refine ⟨?_, ?_, ?_, ?_, ?_⟩
  · intro r u member
    rw [waits] at member
    rw [threads]
    exact wakes.waiters r u member
  · intro u r inside sleeps
    rw [waits]
    rcases wakes.listed u r ((calm u).listed r inside)
      (blocked u r inside sleeps) with member | held'
    · exact Or.inl member
    · exact Or.inr (held u r inside sleeps held')
  · intro u r inside sleeps reply
    rw [received] at reply
    have joined := Pc.listed_of_sleeping inside
    rcases wakes.owed u r ((calm u).sleeping r inside)
      (blocked u r joined sleeps) reply with held' | ⟨w, member⟩
    · exact Or.inl (held u r joined sleeps held')
    · exact Or.inr ⟨w, (calm w).batch r member⟩
  · intro u r inside noReply
    rw [received] at noReply
    have before := (calm u).waiting r inside
    rw [homes]
    have same : (s'.ports (s.requests r).port).pendingSenders =
        (s.ports (s.requests r).port).pendingSenders :=
      congrArg (fun view => view.2) (ports u r before)
    rw [same]
    exact wakes.linked u r before noReply
  · intro u r inside noReply closed
    rw [received] at noReply
    rw [homes] at closed ⊢
    have before := (calm u).waiting r inside
    have same : (s'.ports (s.requests r).port).state = (s.ports (s.requests r).port).state :=
      congrArg (fun view => view.1) (ports u r before)
    rw [same] at closed
    obtain ⟨w, marks⟩ := wakes.destroyer u r before noReply closed
    exact ⟨w, (calm w).marks _ marks⟩

/-! ### Updates that touch no duty -/

theorem move (here : s.pc t = old) (calm : Calm old new) : Wakes (s.setPc t new) :=
  wakes.frame (fun _ => rfl) (fun _ _ _ => rfl) (Calm.update here calm)
    (fun _ _ _ sleeps => sleeps) (fun _ _ _ _ held => held)

theorem setSlot (tid : Tid) (r : Option Request) : Wakes (s.setSlot tid r) :=
  { wakes with }

theorem touch {m : State} (hands : ∀ w u, u ∈ s.hands w → u ∈ m.hands w)
    (touch : Touch s t m) : Wakes m := by
  have records : ∀ r, (m.requests r).wakeView = (s.requests r).wakeView := by
    intro r
    refine (congrArg Pending.wakeView (touch.records r)).trans ?_
    rw [touch.waits r]
    rfl
  have pc := touch.pc
  refine wakes.frame records (fun _ _ _ => touch.ports _) ?_ ?_ (fun _ _ _ _ => Held.mono hands)
  · intro u
    rw [pc]
    exact Calm.refl _
  · intro u r inside sleeps
    refine (touch.blocked u sleeps).resolve_right ?_
    rintro ⟨rfl, _, here⟩
    rw [pc, here] at inside
    cases inside

end

variable {p : PortRef}

/-! ### The sections of a send -/

theorem owed_mono (wakes : Wakes s) {u : Thread} (here : s.pc t = old)
    (batch : ∀ q ∈ old.batch, q ∈ new.batch) (inside : (s.pc u).sleeping = some r)
    (sleeps : s.blocked u = true) (reply : (s.requests r).replyReceived = true) :
    Held s u ∨ ∃ w, r ∈ (update s.pc t new w).batch := by
  rcases wakes.owed u r inside sleeps reply with held | ⟨w, member⟩
  · exact Or.inl held
  refine Or.inr ⟨w, ?_⟩
  refine update_cases (motive := fun pc : Pc => r ∈ pc.batch) ?_ (fun _ => member)
  rintro rfl
  rw [here] at member
  exact batch r member

theorem marking_mono (here : s.pc t = old) (duty : ∀ q, old.marks = some q → new.marks = some q)
    {q : PortRef} (marking : Marking s q) : ∃ w, (update s.pc t new w).marks = some q := by
  obtain ⟨w, marks⟩ := marking
  refine ⟨w, update_cases (motive := fun pc : Pc => pc.marks = some q) ?_ (fun _ => marks)⟩
  rintro rfl
  rw [here] at marks
  exact duty q marks

section

variable (wakes : Wakes s)
include wakes

theorem newRequest (base : Base s) {size : Nat} (here : s.pc t = .sendGot p size)
    (pending : Pending) (fresh : pending.replyWait = []) :
    Wakes { s with
      requests := update s.requests s.nextRequest pending
      nextRequest := s.nextRequest + 1
      pc := update s.pc t (.sendReady s.nextRequest) } := by
  have old : ∀ u r, (s.pc u).request = some r → _ := fun u r => base.record_kept pending
  have calm : Calm (.sendGot p size) (.sendReady s.nextRequest) := Calm.leave rfl rfl rfl
  have calms := Calm.update here calm
  refine ⟨?_, ?_, ?_, ?_, ?_⟩
  · intro r u
    refine update_cases (motive := fun row : Pending =>
      u ∈ row.replyWait → u = row.thread) ?_ (fun _ => wakes.waiters r u)
    intro _ member
    rw [fresh] at member
    cases member
  · intro u r inside sleeps
    have before := (calms u).listed r inside
    change u ∈ (update s.requests _ _ r).replyWait ∨ Held s u
    rw [old u r (Pc.request_of_listed before)]
    exact wakes.listed u r before sleeps
  · intro u r inside sleeps reply
    have before := (calms u).sleeping r inside
    have same := old u r (Pc.request_of_listed (Pc.listed_of_sleeping before))
    have reply' : (s.requests r).replyReceived = true :=
      (congrArg Pending.replyReceived same).symm.trans reply
    exact wakes.owed_mono here calm.batch before sleeps reply'
  · intro u r inside noReply
    have before := (calms u).waiting r inside
    have same := old u r (Pc.request_of_published (Pc.published_of_waiting before))
    change (update s.requests _ _ r).replyReceived = false at noReply
    change r ∈ (s.ports (update s.requests _ _ r).port).pendingSenders
    rw [same] at noReply ⊢
    exact wakes.linked u r before noReply
  · intro u r inside noReply closed
    have before := (calms u).waiting r inside
    have same := old u r (Pc.request_of_published (Pc.published_of_waiting before))
    change (update s.requests _ _ r).replyReceived = false at noReply
    change (s.ports (update s.requests _ _ r).port).state = _ at closed
    change ∃ w, (update s.pc t _ w).marks = some (update s.requests _ _ r).port
    rw [same] at noReply closed ⊢
    obtain ⟨w, marks⟩ := wakes.destroyer u r before noReply closed
    exact ⟨w, (calms w).marks _ marks⟩

theorem enqueue (port : PortRec) (here : s.pc t = .sendPublished r)
    (state : port.state = (s.ports (s.requests r).port).state)
    (senders : port.pendingSenders = (s.ports (s.requests r).port).pendingSenders ++ [r])
    (safe : (s.ports (s.requests r).port).state = .active ∨ Marking s (s.requests r).port) :
    Wakes ((s.setPort (s.requests r).port port).setPc t (.sendQueued r)) := by
  have states : ∀ p, (update s.ports (s.requests r).port port p).state =
      (s.ports p).state := update_view PortRec.state state
  have senders' : ∀ p q, q ∈ (s.ports p).pendingSenders →
      q ∈ (update s.ports (s.requests r).port port p).pendingSenders := by
    intro p q member
    refine update_cases (motive := fun row : PortRec => q ∈ row.pendingSenders) ?_ (fun _ => member)
    rintro rfl
    rw [senders]
    exact mem_append_left _ member
  refine ⟨wakes.waiters, ?_, ?_, ?_, ?_⟩
  · intro u q
    exact update_cases (motive := fun pc : Pc => pc.listed = some q → _)
      nofun (fun _ => wakes.listed u q)
  · intro u q
    refine update_cases (motive := fun pc : Pc => pc.sleeping = some q → _) nofun ?_
    intro _ inside sleeps reply
    exact wakes.owed_mono here nofun inside sleeps reply
  · intro u q
    refine update_cases (motive := fun pc : Pc => pc.waiting = some q → _) ?_ ?_
    · intro _ mine _
      cases mine
      change r ∈ (update s.ports (s.requests r).port port (s.requests r).port).pendingSenders
      rw [update_self, senders]
      exact mem_append_right _ mem_cons_self
    · intro _ inside noReply
      exact senders' _ q (wakes.linked u q inside noReply)
  · intro u q
    refine update_cases (motive := fun pc : Pc => pc.waiting = some q → _) ?_ ?_
    · intro _ mine _ closed
      cases mine
      have closed' : (s.ports (s.requests r).port).state = .closed := (states _).symm.trans closed
      rcases safe with active | marks
      · rw [active] at closed'
        cases closed'
      · exact marking_mono here nofun marks
    · intro _ inside noReply closed
      exact marking_mono here nofun
        (wakes.destroyer u q inside noReply ((states _).symm.trans closed))

theorem prepare (base : Base s) (here : s.pc t = old)
    (mine : old.request = some r) (waiting : new.waiting = old.waiting)
    (listed : new.listed = some r) (batch : old.batch = []) (marks : old.marks = none)
    (safe : new.sleeping = none ∨ ((s.requests r).replyReceived = true → Held s t ∨ InBatch s r)) :
    Wakes ((prepareReplyWait s t r).setPc t new) := by
  have owner := (base.owner t r (by rw [here]; exact mine)).1
  have inPrepared : ∀ w q, q ∈ (s.pc w).batch → q ∈ (update s.pc t new w).batch := by
    intro w q member
    refine update_cases (motive := fun pc : Pc => q ∈ pc.batch) ?_ (fun _ => member)
    rintro rfl
    rw [here, batch] at member
    cases member
  have received : ∀ q, ((prepareReplyWait s t r).requests q).replyReceived =
      (s.requests q).replyReceived := by
    refine update_view Pending.replyReceived ?_
    rfl
  have homes : ∀ q, ((prepareReplyWait s t r).requests q).port = (s.requests q).port := by
    refine update_view Pending.port ?_
    rfl
  have threads : ∀ q, ((prepareReplyWait s t r).requests q).thread = (s.requests q).thread := by
    refine update_view Pending.thread ?_
    rfl
  have waits : ∀ q u, u ∈ (s.requests q).replyWait →
      u ∈ ((prepareReplyWait s t r).requests q).replyWait := by
    intro q u member
    refine update_cases (motive := fun row : Pending => u ∈ row.replyWait) ?_ (fun _ => member)
    rintro rfl
    exact mem_append_left _ member
  have blocked : ∀ u, u ≠ t → (prepareReplyWait s t r).blocked u = s.blocked u :=
    fun u other => update_of_ne other ..
  have waitingOf : ∀ u q, (update s.pc t new u).waiting = some q → (s.pc u).waiting = some q := by
    intro u q
    refine update_cases (motive := fun pc : Pc => pc.waiting = some q → _) ?_ (fun _ same => same)
    rintro rfl inside
    rw [here, ← waiting]
    exact inside
  refine ⟨?_, ?_, ?_, ?_, ?_⟩
  · intro q u member
    change u ∈ (update s.requests r _ q).replyWait at member
    refine Eq.trans ?_ (threads q).symm
    by_cases same : q = r
    · subst same
      rw [update_self] at member
      rcases mem_append.mp member with before | new'
      · exact wakes.waiters q u before
      · rw [mem_singleton.mp new', owner]
    · rw [update_of_ne same] at member
      exact wakes.waiters q u member
  · intro u q
    refine update_cases (motive := fun pc : Pc => pc.listed = some q → _) ?_ ?_
    · rintro rfl inside _
      rw [listed] at inside
      cases inside
      refine Or.inl ?_
      change u ∈ (update s.requests r _ r).replyWait
      rw [update_self]
      exact mem_append_right _ mem_cons_self
    · intro other inside sleeps
      have sleeps' := (blocked u other).symm.trans sleeps
      rcases wakes.listed u q inside sleeps' with member | held
      · exact Or.inl (waits q u member)
      · exact Or.inr held
  · intro u q
    refine update_cases (motive := fun pc : Pc => pc.sleeping = some q → _) ?_ ?_
    · rintro rfl inside _ reply
      have reply' := (received q).symm.trans reply
      rcases safe with awake | promise
      · rw [awake] at inside
        cases inside
      have same := (Pc.listed_of_sleeping inside).symm.trans listed
      cases same
      rcases promise reply' with held | ⟨w, member⟩
      · exact Or.inl held
      · exact Or.inr ⟨w, inPrepared w r member⟩
    · intro other inside sleeps reply
      have sleeps' := (blocked u other).symm.trans sleeps
      have reply' := (received q).symm.trans reply
      rcases wakes.owed u q inside sleeps' reply' with held | ⟨w, member⟩
      · exact Or.inl held
      · exact Or.inr ⟨w, inPrepared w q member⟩
  · intro u q inside noReply
    have noReply' := (received q).symm.trans noReply
    have linked := wakes.linked u q (waitingOf u q inside) noReply'
    rw [← homes q] at linked
    exact linked
  · intro u q inside noReply closed
    have noReply' := (received q).symm.trans noReply
    have closed' : (s.ports (s.requests q).port).state = .closed := by
      rw [← homes q]
      exact closed
    have duty : ∀ p, old.marks = some p → new.marks = some p := by
      rw [marks]
      nofun
    obtain ⟨w, marked⟩ := marking_mono here duty
      (wakes.destroyer u q (waitingOf u q inside) noReply' closed')
    exact ⟨w, marked.trans (congrArg some (homes q).symm)⟩

theorem cancel (base : Base s) (here : s.pc t = .sendPrepared r) :
    Wakes (((s.setRequest r
      { s.requests r with replyWait := (s.requests r).replyWait.erase t }).setBlocked t
      false).setPc t (.sendLeaving r)) := by
  -- the record is left by its owner, who is past every wait
  have owner := (base.owner t r (by rw [here]; rfl)).1
  have awake : Wakes (s.setBlocked t false) :=
    wakes.touch (fun _ _ member => member) ((Touch.refl s t).wake t)
  have left := awake.move here (show Calm _ (.sendLeaving r) from Calm.leave rfl rfl rfl)
  have other : ∀ u q, (update s.pc t (.sendLeaving r) u).waiting = some q → q ≠ r := by
    intro u q
    refine update_cases (motive := fun pc : Pc => pc.waiting = some q → _) nofun ?_
    rintro apart inside rfl
    have mine := base.owner u q (Pc.request_of_published (Pc.published_of_waiting inside))
    exact apart (mine.1.symm.trans owner)
  refine ⟨?_, ?_, ?_, ?_, ?_⟩
  · intro q u
    refine update_cases (motive := fun row : Pending =>
      u ∈ row.replyWait → u = row.thread) ?_ (fun _ => wakes.waiters q u)
    intro _ member
    exact wakes.waiters r u (mem_of_mem_erase member)
  · intro u q inside sleeps
    have apart := other u q (Pc.waiting_of_listed inside)
    change u ∈ (update s.requests r _ q).replyWait ∨ _
    rw [update_of_ne apart]
    exact left.listed u q inside sleeps
  · intro u q inside sleeps reply'
    have apart := other u q (Pc.waiting_of_listed (Pc.listed_of_sleeping inside))
    change (update s.requests r _ q).replyReceived = _ at reply'
    rw [update_of_ne apart] at reply'
    exact left.owed u q inside sleeps reply'
  · intro u q inside noReply
    have apart := other u q inside
    change (update s.requests r _ q).replyReceived = _ at noReply
    change q ∈ (s.ports (update s.requests r _ q).port).pendingSenders
    rw [update_of_ne apart] at noReply ⊢
    exact left.linked u q inside noReply
  · intro u q inside noReply closed
    have apart := other u q inside
    change (update s.requests r _ q).replyReceived = _ at noReply
    change (s.ports (update s.requests r _ q).port).state = _ at closed
    change ∃ w, (update s.pc t _ w).marks = some (update s.requests r _ q).port
    rw [update_of_ne apart] at noReply closed ⊢
    exact left.destroyer u q inside noReply closed

theorem sleep (here : s.pc t = .sendPrepared r)
    (noReply : ¬ (s.requests r).replyReceived = true) : Wakes (s.setPc t (.sendAsleep r)) := by
  have waitingOf : ∀ u q, (update s.pc t (.sendAsleep r) u).waiting =
      some q → (s.pc u).waiting = some q := by
    intro u q
    refine update_cases (motive := fun pc : Pc => pc.waiting = some q → _) ?_ (fun _ same => same)
    rintro rfl inside
    rw [here]
    exact inside
  refine ⟨wakes.waiters, ?_, ?_, ?_, ?_⟩
  · intro u q
    refine update_cases (motive := fun pc : Pc => pc.listed = some q → _)
      ?_ (fun _ => wakes.listed u q)
    rintro rfl inside
    exact wakes.listed u q (by rw [here]; exact inside)
  · intro u q
    refine update_cases (motive := fun pc : Pc => pc.sleeping = some q → _) ?_ ?_
    · rintro rfl inside _ reply
      cases inside
      exact absurd reply noReply
    · intro _ inside sleeps reply
      exact wakes.owed_mono here nofun inside sleeps reply
  · intro u q inside
    exact wakes.linked u q (waitingOf u q inside)
  · intro u q inside without closed
    exact marking_mono here nofun (wakes.destroyer u q (waitingOf u q inside) without closed)

theorem unlink (base : Base s) (here : s.pc t = .sendUnlinking r) (port : PortRec)
    (state : port.state = (s.ports p).state)
    (senders : port.pendingSenders = (s.ports p).pendingSenders.erase r) :
    Wakes ((s.setPort p port).setPc t (.sendPut r)) := by
  have owner := (base.owner t r (by rw [here]; rfl)).1
  have calms := Calm.update here
    (show Calm (.sendUnlinking r) (.sendPut r) from Calm.leave rfl rfl rfl)
  have states : ∀ q, (update s.ports p port q).state =
      (s.ports q).state := update_view PortRec.state state
  refine ⟨wakes.waiters, ?_, ?_, ?_, ?_⟩
  · intro u q inside
    exact wakes.listed u q ((calms u).listed q inside)
  · intro u q inside sleeps reply
    exact wakes.owed_mono here nofun ((calms u).sleeping q inside) sleeps reply
  · intro u q inside noReply
    have before := (calms u).waiting q inside
    have linked := wakes.linked u q before noReply
    refine update_cases (motive := fun row : PortRec => q ∈ row.pendingSenders) ?_ (fun _ => linked)
    intro same
    have same' : (s.requests q).port = p := same
    have apart : q ≠ r := by
      rintro rfl
      have mine := base.owner u q (Pc.request_of_published (Pc.published_of_waiting before))
      rw [mine.1.symm.trans owner, here] at before
      cases before
    rw [senders]
    rw [same'] at linked
    exact (mem_erase_of_ne apart).mpr linked
  · intro u q inside noReply closed
    obtain ⟨w, marks⟩ := wakes.destroyer u q ((calms u).waiting q inside)
      noReply ((states _).symm.trans closed)
    exact ⟨w, (calms w).marks _ marks⟩

/-! ### Wakers -/

theorem held_of_detached {pending : Pending} (empty : s.hands t = [])
    (detached : List Thread) (all : ∀ u ∈ (s.requests r).replyWait, u ∈ detached) {u : Thread}
    (inside : (s.pc u).listed = some r) (sleeps : s.blocked u = true) :
    Held ((s.setRequest r pending).setHands t detached) u := by
  rcases wakes.listed u r inside sleeps with member | held
  · refine ⟨t, ?_⟩
    change u ∈ update s.hands t detached t
    rw [update_self]
    exact all u member
  · exact held.mono (hands_update empty detached)

/-- A waker takes the sleepers of `r` off its wait queue; `pending` is the
record it leaves. -/
theorem detach (pending : Pending) (empty : s.hands t = []) (detached : List Thread)
    (all : ∀ u ∈ (s.requests r).replyWait, u ∈ detached) (home : pending.home = (s.requests r).home)
    (keeps : (s.requests r).replyReceived = true → pending.replyReceived = true)
    (sub : ∀ u ∈ pending.replyWait, u ∈ (s.requests r).replyWait) :
    Wakes ((s.setRequest r pending).setHands t detached) := by
  have homes := update_view Pending.home home
  have threads : ∀ q, (update s.requests r pending q).thread =
      (s.requests q).thread := fun q => congrArg Prod.fst (homes q)
  have ports : ∀ q, (update s.requests r pending q).port =
      (s.requests q).port := fun q => congrArg Prod.snd (homes q)
  have noReplyOf : ∀ q, (update s.requests r pending q).replyReceived = false →
      (s.requests q).replyReceived = false := by
    intro q
    refine update_cases (motive := fun row : Pending =>
      row.replyReceived = false → _) ?_ (fun _ same => same)
    rintro rfl noReply
    cases before : (s.requests q).replyReceived with
    | false => rfl
    | true =>
      rw [keeps before] at noReply
      cases noReply
  refine ⟨?_, ?_, ?_, ?_, ?_⟩
  · intro q u member
    refine Eq.trans ?_ (threads q).symm
    change u ∈ (update s.requests r pending q).replyWait at member
    by_cases same : q = r
    · subst same
      rw [update_self] at member
      exact wakes.waiters q u (sub u member)
    · rw [update_of_ne same] at member
      exact wakes.waiters q u member
  · intro u q inside sleeps
    by_cases same : q = r
    · subst same
      exact Or.inr (wakes.held_of_detached empty detached all inside sleeps)
    change u ∈ (update s.requests r pending q).replyWait ∨ _
    rw [update_of_ne same]
    rcases wakes.listed u q inside sleeps with member | held
    · exact Or.inl member
    · exact Or.inr (held.mono (hands_update empty detached))
  · intro u q inside sleeps reply
    by_cases same : q = r
    · subst same
      exact Or.inl (wakes.held_of_detached empty detached all (Pc.listed_of_sleeping inside) sleeps)
    · change (update s.requests r pending q).replyReceived = _ at reply
      rw [update_of_ne same] at reply
      rcases wakes.owed u q inside sleeps reply with held | member
      · exact Or.inl (held.mono (hands_update empty detached))
      · exact Or.inr member
  · intro u q inside noReply
    have linked := wakes.linked u q inside (noReplyOf q noReply)
    rw [← ports q] at linked
    exact linked
  · intro u q inside noReply closed
    have closed' : (s.ports (s.requests q).port).state = .closed := by
      rw [← ports q]
      exact closed
    obtain ⟨w, marks⟩ := wakes.destroyer u q inside (noReplyOf q noReply) closed'
    exact ⟨w, marks.trans (congrArg some (ports q).symm)⟩

theorem ipcReplyStaged (empty : s.hands t = []) (tid : Tid)
    (reply : Reply) : Wakes (ipcReplyStaged s t tid reply) := by
  unfold Channel.ipcReplyStaged
  split
  · exact { wakes with }
  next r set =>
    have detached := wakes.detach (r := r) { s.requests r with
        reply := some reply
        replyReceived := true
        replyWait := (s.requests r).replyWait.tail }
      empty (s.requests r).replyWait.head?.toList ?_ rfl (fun _ => rfl) ?_
    · exact { detached with }
    · intro u member
      -- only the owner of a record waits on it
      cases queue : (s.requests r).replyWait with
      | nil =>
        rw [queue] at member
        cases member
      | cons first =>
        have firstIs := wakes.waiters r first (by rw [queue]; simp)
        rw [wakes.waiters r u member, ← firstIs]
        exact mem_singleton_self first
    · intro u member
      exact mem_of_mem_tail member

theorem sysReply (empty : s.hands t = []) (tid : Tid) (answers : Option Request)
    (payload : Bool) : Wakes (sysReply s t tid answers payload) := by
  unfold Channel.sysReply
  split
  · have staged : Wakes { s with nextBuffer := s.nextBuffer + 1 } := { wakes with }
    exact staged.ipcReplyStaged empty tid _
  · exact wakes.ipcReplyStaged empty tid _

section

variable {rest : List Request} {more : Bool} (here : s.pc t = .destroyBatch p (r :: rest) more)
include here

theorem dropBatch (held : ∀ u, (s.pc u).listed = some r → s.blocked u = true → Held s u) :
    Wakes (s.setPc t (.destroyBatch p rest more)) := by
  have still : ∀ u, Still (s.pc u) (update s.pc t (.destroyBatch p rest more) u) :=
    Still.update here (.leave rfl)
  refine ⟨wakes.waiters, ?_, ?_, ?_, ?_⟩
  · exact fun u q inside => wakes.listed u q ((still u).listed q inside)
  · intro u q inside sleeps reply
    have before := (still u).sleeping q inside
    rcases wakes.owed u q before sleeps reply with held' | ⟨w, member⟩
    · exact Or.inl held'
    by_cases mine : w = t
    · rw [mine, here] at member
      rcases mem_cons.mp member with rfl | later
      · exact Or.inl (held u (Pc.listed_of_sleeping before) sleeps)
      refine Or.inr ⟨t, ?_⟩
      change q ∈ (update s.pc t _ t).batch
      rw [update_self]
      exact later
    · refine Or.inr ⟨w, ?_⟩
      change q ∈ (update s.pc t _ w).batch
      rw [update_of_ne mine]
      exact member
  · exact fun u q inside => wakes.linked u q ((still u).waiting q inside)
  · intro u q inside noReply closed
    refine marking_mono here ?_ (wakes.destroyer u q ((still u).waiting q inside) noReply closed)
    cases more with
    | true => exact fun _ same => same
    | false => nofun

theorem wake (empty : s.hands t = []) :
    Wakes (((s.setRequest r { s.requests r with replyWait := [] }).setHands t
      (s.requests r).replyWait).setPc t (.destroyBatch p rest more)) := by
  have detached := wakes.detach (r := r)
    { s.requests r with replyWait := [] } empty (s.requests r).replyWait
    (fun _ member => member) rfl (fun same => same) nofun
  exact detached.dropBatch here (fun u inside sleeps =>
    wakes.held_of_detached empty _ (fun _ member => member) inside sleeps)

end

theorem close (here : s.pc t = .user) :
    Wakes ((s.setPort p { s.ports p with state := .closed }).setPc t
      (.destroyClosed p !(s.ports p).pendingSenders.isEmpty)) := by
  have senders : ∀ q, (update s.ports p { s.ports p with state := .closed } q).pendingSenders =
      (s.ports q).pendingSenders := update_view PortRec.pendingSenders rfl
  have still : ∀ u, Still (s.pc u) (update s.pc t
      (.destroyClosed p !(s.ports p).pendingSenders.isEmpty) u) :=
    Still.update here (.leave rfl)
  refine ⟨wakes.waiters, ?_, ?_, ?_, ?_⟩
  · exact fun u q inside => wakes.listed u q ((still u).listed q inside)
  · intro u q inside sleeps reply
    exact wakes.owed_mono here nofun ((still u).sleeping q inside) sleeps reply
  · intro u q inside noReply
    have linked := wakes.linked u q ((still u).waiting q inside) noReply
    rw [← senders] at linked
    exact linked
  intro u q inside noReply closed
  have before := (still u).waiting q inside
  by_cases mine : (s.requests q).port = p
  · have linked := wakes.linked u q before noReply
    rw [mine] at linked
    refine ⟨t, ?_⟩
    change (update s.pc t _ t).marks = some (s.requests q).port
    rw [update_self, mine]
    cases queue : (s.ports p).pendingSenders with
    | nil =>
      rw [queue] at linked
      cases linked
    | cons => rfl
  · have closed' : (s.ports (s.requests q).port).state = .closed :=
      (congrArg PortRec.state (update_of_ne mine ..)).symm.trans closed
    exact marking_mono here nofun (wakes.destroyer u q before noReply closed')

end

theorem batch_full (linked : r ∈ (s.ports p).pendingSenders)
    (noReply : (s.requests r).replyReceived = false) (left : r ∉ markBatch s p) :
    (markBatch s p).length = wakeBatch := by
  unfold markBatch at left ⊢
  have candidate : r ∈ (s.ports p).pendingSenders.filter
      (fun r => !(s.requests r).replyReceived) := by
    rw [mem_filter]
    exact ⟨linked, by simp [noReply]⟩
  rw [length_take]
  refine min_eq_left ?_
  rcases lt_or_ge ((s.ports p).pendingSenders.filter
    (fun r => !(s.requests r).replyReceived)).length wakeBatch with short | long
  · rw [take_of_length_le (le_of_lt short)] at left
    exact absurd candidate left
  · exact long

section

variable (wakes : Wakes s)
include wakes

/-- One marking pass: each sender without a reply is in the batch, or there are
too many and another pass follows. -/
theorem destroyMark (here : s.pc t = .destroyMark p) : Wakes (destroyMark s t p) := by
  set batch := markBatch s p with batchEq
  set next : Pc := if batch.isEmpty then .putting p .ok
    else .destroyBatch p batch (batch.length == wakeBatch) with nextEq
  have notWaiting : next.waiting = none := by
    rw [nextEq]
    split <;> rfl
  have requests : ∀ r, (Channel.destroyMark s t p).requests r = if r ∈ batch then
        { s.requests r with portDead := true, replyReceived := true }
      else s.requests r := fun _ => rfl
  have homes : ∀ r, ((Channel.destroyMark s t p).requests r).port = (s.requests r).port := by
    intro r
    rw [requests]
    split <;> rfl
  have waits : ∀ r, ((Channel.destroyMark s t p).requests r).replyWait =
      (s.requests r).replyWait := by
    intro r
    rw [requests]
    split <;> rfl
  have unmarked : ∀ r, ((Channel.destroyMark s t p).requests r).replyReceived = false →
      r ∉ batch ∧ (s.requests r).replyReceived = false := by
    intro r noReply
    rw [requests] at noReply
    split at noReply
    · cases noReply
    · next out => exact ⟨out, noReply⟩
  have states : ∀ q, ((Channel.destroyMark s t p).ports q).state = (s.ports q).state := by
    refine update_view PortRec.state ?_
    rfl
  have still : ∀ u, Still (s.pc u) (update s.pc t next u) := Still.update here (.leave notWaiting)
  refine ⟨?_, ?_, ?_, ?_, ?_⟩
  · intro r u member
    rw [waits] at member
    rw [wakes.waiters r u member, requests]
    split <;> rfl
  · intro u r inside
    rw [waits]
    exact wakes.listed u r ((still u).listed r inside)
  · intro u r inside sleeps reply
    have before := (still u).sleeping r inside
    by_cases marked : r ∈ batch
    · refine Or.inr ⟨t, ?_⟩
      change r ∈ (update s.pc t next t).batch
      rw [update_self, nextEq]
      split
      · next none' =>
          rw [isEmpty_iff.mp none'] at marked
          cases marked
      · exact marked
    · rw [requests, if_neg marked] at reply
      exact wakes.owed_mono here nofun before sleeps reply
  · intro u r inside noReply
    obtain ⟨left, noReply'⟩ := unmarked r noReply
    have linked := wakes.linked u r ((still u).waiting r inside) noReply'
    rw [homes]
    refine update_cases (motive := fun row : PortRec => r ∈ row.pendingSenders) ?_ (fun _ => linked)
    intro mine
    rw [mine] at linked
    exact mem_filter.mpr ⟨linked, decide_eq_true left⟩
  · intro u r inside noReply closed
    obtain ⟨left, noReply'⟩ := unmarked r noReply
    have before := (still u).waiting r inside
    rw [homes] at closed ⊢
    obtain ⟨w, marks⟩ := wakes.destroyer u r before noReply' ((states _).symm.trans closed)
    refine ⟨w, update_cases (motive := fun pc : Pc => pc.marks = _) ?_ (fun _ => marks)⟩
    rintro rfl
    rw [here] at marks
    have mine : p = (s.requests r).port := Option.some.inj marks
    have linked := wakes.linked u r before noReply'
    rw [← mine] at linked ⊢
    have full := batch_full linked noReply' left
    rw [← batchEq] at full
    have nonempty : batch.isEmpty = false := by
      cases batchCase : batch with
      | nil =>
        rw [batchCase] at full
        cases full
      | cons => rfl
    change next.marks = some p
    rw [nextEq, nonempty, full]
    rfl

theorem ipcPortCreate (base : Base s) (t : Thread) (id : Nat) : Wakes (ipcPortCreate s t id) := by
  refine wakes.frame (fun _ => rfl) ?_ (fun _ => Calm.refl _)
    (fun _ _ _ sleeps => sleeps) (fun _ _ _ _ held => held)
  intro u r inside
  have bound := base.port_lt r (base.owner u r (Pc.request_of_published
    (Pc.published_of_waiting inside))).2
  refine congrArg PortRec.wakeView (update_of_ne ?_ ..)
  exact ne_of_lt bound

theorem turn (base : Base s) {flag : Bool} (empty : s.hands t = [])
    (safe : WakeSafe s (.run t flag)) (turn : Turn s t flag s') : Wakes s' := by
  cases turn with
  | walk here lane =>
    cases lane with
    | quiet way touch =>
      -- a wait that goes on, a destroy before its pass, or neither
      refine (wakes.touch (touch.hands empty) touch).move ((congrFun touch.pc t).trans here) ?_
      cases way <;> first
        | exact Calm.leave rfl rfl rfl
        | exact Calm.within rfl (Or.inl rfl) rfl rfl
        | exact Calm.within rfl (Or.inr ⟨rfl, rfl⟩) rfl rfl
        | exact Calm.remark rfl nofun rfl
    | handoff sameCpu =>
      exact wakes.prepare base here rfl rfl rfl rfl rfl (Or.inr (safe.2 _ _ here sameCpu))
    | prepare => exact wakes.prepare base here rfl rfl rfl rfl rfl (Or.inl rfl)
    | sleep noReply => exact wakes.sleep here noReply
    | unlink => exact wakes.unlink base here _ rfl rfl
    | wake => exact wakes.wake here empty
  | pass here leaves =>
    cases leaves with
    | tested => exact wakes.move here (Calm.leave rfl rfl rfl)
    | cancelled => exact wakes.cancel base here
  | newRequest here pending _ fresh => exact wakes.newRequest base here pending fresh.2.2.2.2
  | publish here => exact (wakes.setSlot _ _).move here (Calm.leave rfl rfl rfl)
  | enqueue here room _ port _ _ senders state =>
    exact wakes.enqueue port here state senders (safe.1 _ here room)
  | refuse here => exact (wakes.setSlot _ _).move here (Calm.leave rfl rfl rfl)
  | retract here => exact (wakes.setSlot _ _).move here (Calm.leave rfl rfl rfl)
  | deliver here _ result =>
    refine move (s := State.setResult _ t result) ?_ here (Calm.leave rfl rfl rfl)
    exact { wakes with }
  | mark here => exact wakes.destroyMark here

theorem unblock {first : Thread} {rest : List Thread}
    (hands : s.hands t = first :: rest) : Wakes ((s.setBlocked first false).setHands t rest) := by
  have awake : ∀ u, update s.blocked first false u = true → u ≠ first ∧ s.blocked u = true := by
    intro u
    by_cases same : u = first
    · rw [same, update_self]
      exact nofun
    · rw [update_of_ne same]
      exact fun sleeps => ⟨same, sleeps⟩
  refine wakes.frame (fun _ => rfl) (fun _ _ _ => rfl) (fun _ => Calm.refl _)
    (fun u _ _ sleeps => (awake u sleeps).2) ?_
  rintro u _ _ sleeps ⟨w, member⟩
  refine ⟨w, update_cases (motive := fun threads => u ∈ threads) ?_ (fun _ => member)⟩
  rintro rfl
  rw [hands] at member
  exact (mem_cons.mp member).resolve_left (awake u sleeps).1

end

end Wakes

/-! ### Whole runs -/

theorem wakes_step (s : State) (label : Label) (s' : State) (inv : Base s ∧ Wakes s)
    (taken : Lib.Guarded Step WakeSafe s label s') : Base s' ∧ Wakes s' := by
  obtain ⟨taken, safe⟩ := taken
  obtain ⟨base, wakes⟩ := inv
  refine ⟨base_step s label s' base taken, ?_⟩
  cases stride_of_step taken with
  | run _ empty turn => exact wakes.turn base empty safe turn
  | missing empty touch => exact wakes.touch (touch.hands empty) touch
  | @found t _ _ p _ _ here _ door =>
    have held : Wakes (takeRef s p) := wakes.touch (fun _ _ member => member)
      (Touch.setPort (.refl s t) p _ rfl fun _ => .inl)
    refine held.move here ?_
    cases door <;> exact Calm.leave rfl rfl rfl
  | create => exact wakes.ipcPortCreate base _ _
  | reply empty => exact wakes.sysReply empty _ _ _
  | @destroy _ _ p _ here =>
    have closed := wakes.close (p := p) here
    exact { closed with }
  | unblock hands => exact wakes.unblock hands
  | spawn => exact { wakes with }
  | kill | cleanup | bury | reap => cases safe

/-- In every run of safe steps a sender blocked on a destroyed port is owed a
wake-up, so no quiescent state has one. -/
theorem no_stranded_sender {labels : List Label} {s : State}
    (run : Lib.Steps (Lib.Guarded Step WakeSafe) initial labels s) : (∀ t r, BlockedInSend s t r →
      (s.ports (s.requests r).port).state = .closed → WakePending s t r) ∧
    (Quiescent s → ∀ t r, BlockedInSend s t r → (s.ports (s.requests r).port).state ≠ .closed) := by
  obtain ⟨_, wakes⟩ := run.invariant wakes_step ⟨base_initial, wakes_initial⟩
  have pending : ∀ t r, BlockedInSend s t r →
      (s.ports (s.requests r).port).state = .closed → WakePending s t r := by
    rintro t r ⟨asleep, sleeps⟩ closed
    have waiting : (s.pc t).waiting = some r := by rw [asleep]; rfl
    cases reply : (s.requests r).replyReceived with
    | true =>
      have sleeping : (s.pc t).sleeping = some r := by rw [asleep]; rfl
      rcases wakes.owed t r sleeping sleeps reply with held | batch
      · exact Or.inl held
      · exact Or.inr (Or.inl batch)
    | false =>
      exact Or.inr (Or.inr ⟨wakes.destroyer t r waiting reply closed, reply,
        wakes.linked t r waiting reply⟩)
  refine ⟨pending, ?_⟩
  intro quiet t r blocked closed
  exact not_wakePending quiet t r (pending t r blocked closed)

/-- An executable test that implies `WakeSafe`. -/
def wakeCheck (s : State) : Label → Bool
  | .run t flag =>
    match s.pc t with
    | .sendPublished r =>
      decide ((s.ports (s.requests r).port).state = .active)
    | .sendExtracted _ _ => !flag
    | _ => true
  | .kill _ | .cleanup _ | .reap _ => false
  | _ => true

theorem wakeSafe_of_check (s : State) (label : Label)
    (checked : wakeCheck s label = true) : WakeSafe s label := by
  cases label with
  | run =>
    refine ⟨?_, ?_⟩
    · intro r here _
      simp only [wakeCheck, here, decide_eq_true_eq] at checked
      exact Or.inl checked
    · intro r receiver here sameCpu
      simp [wakeCheck, here, sameCpu] at checked
  | kill | cleanup | reap => cases checked
  | call | unblock | spawn => trivial

/-- A client is asleep on port 5 when its server destroys it. -/
def sleepingSenderRun : List Label :=
  [.spawn 1 10, .spawn 2 20, .call 1 (.create 5), .call 0 (.send 5 16), .run 0 true, .run 0 true,
    .run 0 true, .run 0 true, .run 0 true, .run 0 true, .run 0 true, .call 1 (.destroy 5)]

/-- The state that run ends in. -/
def sleepingSenderState : State :=
  (execAll initial sleepingSenderRun).getD initial

/-- The destroy owes the sleeping client a wake-up. -/
theorem no_stranded_sender_asleep : BlockedInSend sleepingSenderState 0 0 ∧
    (sleepingSenderState.ports (sleepingSenderState.requests 0).port).state = .closed ∧
      WakePending sleepingSenderState 0 0 := by
  have run : Lib.Steps (Lib.Guarded Step WakeSafe) initial sleepingSenderRun
      sleepingSenderState := steps_of_execChecked wakeSafe_of_check rfl
  exact ⟨⟨rfl, rfl⟩, rfl, (no_stranded_sender run).1 0 0 ⟨rfl, rfl⟩ rfl⟩

/-- The server's port 5 is destroyed after a client has passed the state check
and before it has queued its message. -/
def lateSenderRun : List Label :=
  [.spawn 1 10, .spawn 2 20, .call 1 (.create 5), .call 0 (.send 5 16),
    .run 0 true, .run 0 true, .call 1 (.destroy 5), .run 1 true, .run 1 true,
    .run 0 true, .run 0 true, .run 0 true, .run 0 true, .run 0 true]

/-- The state that run ends in. -/
def lateSenderState : State := (execAll initial lateSenderRun).getD initial

/-- Without the side conditions the property fails: the client sleeps on the
destroyed port, everything is quiescent and nothing is going to wake it. -/
theorem late_sender_sleeps_for_ever : Lib.Steps Step initial lateSenderRun lateSenderState ∧
      Quiescent lateSenderState ∧ BlockedInSend lateSenderState 0 0 ∧ (lateSenderState.ports
      (lateSenderState.requests 0).port).state = .closed ∧ ¬ WakePending lateSenderState 0 0 := by
  have quiet : Quiescent lateSenderState := by
    intro t
    match t with
    | 0 => exact ⟨rfl, Or.inr ⟨rfl, Or.inl ⟨0, rfl⟩⟩⟩
    | 1 => exact ⟨rfl, Or.inl rfl⟩
    | n + 2 => exact ⟨rfl, Or.inl rfl⟩
  refine ⟨steps_of_execAll rfl, quiet, ⟨rfl, rfl⟩, rfl, ?_⟩
  exact not_wakePending quiet 0 0

end MainDob.Kernel.Channel
