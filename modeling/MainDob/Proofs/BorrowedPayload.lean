/-
Purpose: When a queued message may point into the frame of its sender. In every interleaving in
  which replies, kills and marking passes only hit senders whose message has left the queue, each
  borrowed payload belongs to a sender alive and waiting for exactly that message; a forged reply
  leaves one behind.
Main exports: Entry.Borrowed, Waits, borrowed_payloads_live
-/
import MainDob.Proofs.ChannelBase

namespace MainDob.Kernel.Channel

open List

/-! ### Loans -/

/-- The payload of the message is not the kernel heap's. -/
def Entry.Borrowed (entry : Entry) : Prop :=
  entry.payloadOwned = false ∧ 0 < entry.payloadSize

/-- The sender of request `r` is alive and blocked on it. -/
def Waits (s : State) (r : Request) : Prop :=
  s.life (s.requests r).thread = .alive ∧
    (s.pc (s.requests r).thread).waiting = some r ∧ (s.requests r).replyReceived = false

/-- A message of request `r` with a borrowed payload is in a queue. -/
def OnLoan (s : State) (r : Request) : Prop :=
  ∃ p entry, entry ∈ (s.ports p).msgQueue ∧ entry.Borrowed ∧ entry.request = some r

/-- The send whose message is still to be queued. -/
def Pc.unsent : Pc → Option Request
  | .sendReady r | .sendPublished r => some r
  | _ => none

/-- The steps that respect loans: a reply goes to a sender whose message, if it
lends a payload, has been queued and taken; a marking pass and a kill hit no
sender with a loan in a queue. -/
def LoanSafe (s : State) : Label → Prop
  | .call _ (.reply tid _ _) => ∀ r, s.slot tid = some r →
      ¬ OnLoan s r ∧ (0 < (s.requests r).payloadSize →
        s.pc (s.requests r).thread ≠ .sendPublished r)
  | .run t _ => ∀ p, s.pc t = .destroyMark p → ∀ r ∈ markBatch s p, ¬ OnLoan s r
  | .kill t => ∀ r, (s.pc t).waiting = some r → ¬ OnLoan s r
  | _ => True

/-- The invariant of loans. -/
structure Lent (s : State) : Prop where
  waits : ∀ p entry, entry ∈ (s.ports p).msgQueue → entry.Borrowed →
    ∃ r, entry.request = some r ∧ Waits s r
  unsent : ∀ t r, (s.pc t).unsent = some r → s.life t = .alive →
    0 < (s.requests r).payloadSize → (s.requests r).replyReceived = false
  linked : ∀ p r, r ∈ (s.ports p).pendingSenders → r < s.nextRequest ∧ ∀ t, (s.pc t).unsent ≠ some r

theorem lent_initial : Lent initial where
  waits := by simp [initial]
  unsent := by simp [initial, Pc.unsent]
  linked := by simp [initial]

theorem Pc.request_of_unsent {pc : Pc} {r : Request}
    (unsent : pc.unsent = some r) : pc.request = some r := by
  cases pc <;> first | exact unsent | cases unsent

theorem Pc.eq_published {pc : Pc} {r : Request} (unsent : pc.unsent = some r)
    (published : pc.published = some r) : pc = .sendPublished r := by
  cases pc with
  | sendPublished =>
    cases unsent
    rfl
  | sendReady => cases published
  | _ => cases unsent

/-- What a record shows of its loan. -/
def Pending.lentView (pending : Pending) : Thread × Bool × Nat :=
  (pending.thread, pending.replyReceived, pending.payloadSize)

namespace Lent

open Function (update update_of_ne update_self)

variable {s s' : State} {t : Thread}

theorem waits_mono {r : Request} (records : (s'.requests r).lentView = (s.requests r).lentView)
    (life : ∀ u, s.life u = .alive → (s.pc u).waiting = some r → s'.life u = .alive)
    (waiting : ∀ u, (s.pc u).waiting = some r → (s.requests r).replyReceived = false →
      (s'.pc u).waiting = some r) (waits : Waits s r) : Waits s' r := by
  have thread : (s'.requests r).thread = (s.requests r).thread :=
    congrArg (fun view => view.1) records
  have received : (s'.requests r).replyReceived = (s.requests r).replyReceived :=
    congrArg (fun view => view.2.1) records
  obtain ⟨alive, inside, noReply⟩ := waits
  unfold Waits
  rw [thread, received]
  exact ⟨life _ alive inside, waiting _ inside noReply, noReply⟩

section

variable (lent : Lent s)
include lent

theorem frame (records : ∀ r, (s'.requests r).lentView = (s.requests r).lentView)
    (requests : s'.nextRequest = s.nextRequest) (queues : ∀ p entry, entry ∈ (s'.ports p).msgQueue →
    entry.Borrowed → ∃ q, entry ∈ (s.ports q).msgQueue)
    (senders : ∀ p r, r ∈ (s'.ports p).pendingSenders → ∃ q, r ∈ (s.ports q).pendingSenders)
    (life : ∀ u r, s.life u = .alive → (s.pc u).waiting = some r → s'.life u = .alive)
    (born : ∀ u r, s'.life u = .alive → (s'.pc u).unsent = some r → s.life u = .alive)
    (waiting : ∀ u r, (s.pc u).waiting = some r →
      (s.requests r).replyReceived = false → (s'.pc u).waiting = some r)
    (unsent : ∀ u r, (s'.pc u).unsent = some r → (s.pc u).unsent = some r) : Lent s' := by
  refine ⟨?_, ?_, ?_⟩
  · intro p entry member borrowed
    obtain ⟨q, before⟩ := queues p entry member borrowed
    obtain ⟨r, request, waits⟩ := lent.waits q entry before borrowed
    exact ⟨r, request, waits_mono (records r) (fun u => life u r) (fun u => waiting u r) waits⟩
  · intro u r inside alive size
    have received : (s'.requests r).replyReceived = (s.requests r).replyReceived :=
      congrArg (fun view => view.2.1) (records r)
    have sizes : (s'.requests r).payloadSize = (s.requests r).payloadSize :=
      congrArg (fun view => view.2.2) (records r)
    rw [received]
    rw [sizes] at size
    exact lent.unsent u r (unsent u r inside) (born u r alive inside) size
  · intro p r member
    obtain ⟨q, before⟩ := senders p r member
    obtain ⟨bound, fresh⟩ := lent.linked q r before
    rw [requests]
    exact ⟨bound, fun u inside => fresh u (unsent u r inside)⟩

theorem brush {m : State} (brush : Brush s m) : Lent m := by
  have records : ∀ r, (m.requests r).lentView = (s.requests r).lentView :=
    fun r => (congrArg Pending.lentView (brush.records r) :)
  rw [brush.rest]
  refine lent.frame records rfl ?_ (fun p _ member => ⟨p, brush.senders p member⟩)
    (fun _ _ alive _ => alive) (fun _ _ alive _ => alive)
    (fun _ _ inside _ => inside) (fun _ _ inside => inside)
  intro p entry member borrowed
  refine ⟨p, (brush.queues p entry member).resolve_right ?_⟩
  rintro ⟨owned, _⟩
  rw [borrowed.1] at owned
  cases owned

theorem setSlot (tid : Tid) (r : Option Request) :
    Lent (s.setSlot tid r) := { lent with }

theorem setPc {old new : Pc} (here : s.pc t = old) (waiting : ∀ r, old.waiting = some r →
      (s.requests r).replyReceived = false → new.waiting = some r)
    (unsent : ∀ r, new.unsent = some r → old.unsent = some r) : Lent (s.setPc t new) := by
  refine lent.frame (fun _ => rfl) rfl (fun p _ member _ => ⟨p, member⟩)
    (fun p _ member => ⟨p, member⟩) (fun _ _ alive _ => alive) (fun _ _ alive _ => alive) ?_ ?_
  · intro u r inside noReply
    exact waiting_kept here inside fun was => waiting r was noReply
  · intro u r
    refine update_cases (motive := fun pc : Pc => pc.unsent = some r → _) ?_ (fun _ same => same)
    rintro rfl inside
    rw [here]
    exact unsent r inside

theorem move {old new : Pc} (here : s.pc t = old)
    (same : old.waiting = none ∨ new.waiting = old.waiting)
    (sent : new.unsent = none ∨ new.unsent = old.unsent) : Lent (s.setPc t new) := by
  refine lent.setPc here ?_ ?_
  · intro r inside _
    rcases same with out | same
    · rw [out] at inside
      cases inside
    · exact same.trans inside
  · intro r inside
    rcases sent with out | same'
    · rw [out] at inside
      cases inside
    · exact same'.symm.trans inside

theorem settle (requests : Request → Pending)
    (threads : ∀ r, (requests r).thread = (s.requests r).thread)
    (sizes : ∀ r, (requests r).payloadSize = (s.requests r).payloadSize)
    (marked : ∀ r, (requests r).replyReceived = (s.requests r).replyReceived ∨
        (¬ OnLoan s r ∧ (0 < (s.requests r).payloadSize →
          ∀ u, s.life u = .alive → (s.pc u).unsent ≠ some r))) :
    Lent { s with requests := requests } := by
  refine ⟨?_, ?_, lent.linked⟩
  · intro p entry member borrowed
    obtain ⟨r, request, alive, inside, noReply⟩ := lent.waits p entry member borrowed
    refine ⟨r, request, ?_⟩
    unfold Waits
    simp only [threads]
    refine ⟨alive, inside, ?_⟩
    rcases marked r with same | ⟨noLoan, _⟩
    · exact same.trans noReply
    · exact absurd ⟨p, entry, member, borrowed, request⟩ noLoan
  · intro u r inside alive size
    have size' : 0 < (s.requests r).payloadSize := by
      rw [← sizes r]
      exact size
    rcases marked r with same | ⟨_, sent⟩
    · exact same.trans (lent.unsent u r inside alive size')
    · exact absurd inside (sent size' u alive)

theorem newRequest (base : Base s) {p : PortRef} {size : Nat}
    (here : s.pc t = .sendGot p size) (pending : Pending) (fresh : pending.replyReceived = false) :
    Lent { s with
      requests := update s.requests s.nextRequest pending
      nextRequest := s.nextRequest + 1
      pc := update s.pc t (.sendReady s.nextRequest) } := by
  have old : ∀ u r, (s.pc u).request = some r → _ := fun u r => base.record_kept pending
  refine ⟨?_, ?_, ?_⟩
  · intro q entry member borrowed
    obtain ⟨r, request, alive, inside, noReply⟩ := lent.waits q entry member borrowed
    have same := old _ r (Pc.request_of_published (Pc.published_of_waiting inside))
    have apart : (s.requests r).thread ≠ t := by
      intro equal
      rw [equal, here] at inside
      cases inside
    refine ⟨r, request, ?_⟩
    unfold Waits
    simp only [same]
    refine ⟨alive, ?_, noReply⟩
    exact (congrArg Pc.waiting (update_of_ne apart ..)).trans inside
  · intro u r
    refine update_cases (motive := fun pc : Pc => pc.unsent = some r → _) ?_ ?_
    · intro _ inside _ _
      cases inside
      exact (congrArg Pending.replyReceived (update_self ..)).trans fresh
    · intro _ inside alive size'
      have same := old u r (Pc.request_of_unsent inside)
      simp only [same] at size' ⊢
      exact lent.unsent u r inside alive size'
  · intro q r member
    obtain ⟨bound, fresh'⟩ := lent.linked q r member
    refine ⟨Nat.lt_succ_of_lt bound, ?_⟩
    intro u
    refine update_cases (motive := fun pc : Pc => pc.unsent ≠ some r) ?_ (fun _ => fresh' u)
    intro _ same
    cases same
    exact lt_irrefl _ bound

theorem enqueue (base : Base s) {r : Request} (entry : Entry) (port : PortRec)
    (alive : s.life t = .alive) (here : s.pc t = .sendPublished r)
    (request : entry.request = some r) (size : entry.payloadSize = (s.requests r).payloadSize)
    (queue : port.msgQueue = (s.ports (s.requests r).port).msgQueue ++ [entry])
    (senders : port.pendingSenders = (s.ports (s.requests r).port).pendingSenders ++ [r]) :
    Lent ((s.setPort (s.requests r).port port).setPc t (.sendQueued r)) := by
  obtain ⟨owner, bound⟩ := base.owner t r (by rw [here]; rfl)
  have waitsOf : ∀ q, Waits s q →
      Waits ((s.setPort (s.requests r).port port).setPc t (.sendQueued r)) q := by
    rintro q ⟨living, inside, noReply⟩
    refine ⟨living, ?_, noReply⟩
    exact waiting_kept here inside nofun
  have noLonger : ∀ u, (update s.pc t (.sendQueued r) u).unsent ≠ some r := by
    intro u
    refine update_cases (motive := fun pc : Pc => pc.unsent ≠ some r) nofun ?_
    intro apart inside
    exact apart (base.same_thread (Pc.request_of_unsent inside) (by rw [here]; rfl))
  have unsentOf : ∀ u q, (update s.pc t (.sendQueued r) u).unsent =
      some q → (s.pc u).unsent = some q := by
    intro u q
    exact update_cases (motive := fun pc : Pc => pc.unsent = some q → _) nofun (fun _ same => same)
  refine ⟨?_, ?_, ?_⟩
  · intro p other member borrowed
    change other ∈ (update s.ports (s.requests r).port port p).msgQueue at member
    by_cases same : p = (s.requests r).port
    · subst same
      rw [update_self, queue] at member
      rcases mem_append.mp member with before | new
      · obtain ⟨q, request', waits⟩ := lent.waits _ other before borrowed
        exact ⟨q, request', waitsOf q waits⟩
      rw [mem_singleton.mp new] at borrowed ⊢
      refine ⟨r, request, ?_, ?_, ?_⟩
      · change s.life (s.requests r).thread = .alive
        rw [owner]
        exact alive
      · change (update s.pc t _ (s.requests r).thread).waiting = some r
        rw [owner, update_self]
        rfl
      · refine lent.unsent t r (by rw [here]; rfl) alive ?_
        rw [← size]
        exact borrowed.2
    · rw [update_of_ne same] at member
      obtain ⟨q, request', waits⟩ := lent.waits p other member borrowed
      exact ⟨q, request', waitsOf q waits⟩
  · intro u q inside
    exact lent.unsent u q (unsentOf u q inside)
  · intro p q member
    change q ∈ (update s.ports (s.requests r).port port p).pendingSenders at member
    have cases' : (∃ p, q ∈ (s.ports p).pendingSenders) ∨ q = r := by
      by_cases same : p = (s.requests r).port
      · subst same
        rw [update_self, senders] at member
        rcases mem_append.mp member with before | new
        · exact Or.inl ⟨_, before⟩
        · exact Or.inr (mem_singleton.mp new)
      · rw [update_of_ne same] at member
        exact Or.inl ⟨p, member⟩
    rcases cases' with ⟨p, before⟩ | rfl
    · obtain ⟨less, fresh⟩ := lent.linked p q before
      exact ⟨less, fun u inside => fresh u (unsentOf u q inside)⟩
    · exact ⟨bound, noLonger⟩

theorem settleOne (r : Request) (pending : Pending)
    (thread : pending.thread = (s.requests r).thread)
    (size : pending.payloadSize = (s.requests r).payloadSize) (noLoan : ¬ OnLoan s r)
    (sent : 0 < (s.requests r).payloadSize → ∀ u, s.life u = .alive → (s.pc u).unsent ≠ some r) :
    Lent (s.setRequest r pending) := by
  refine lent.settle _ (update_view Pending.thread thread) (update_view Pending.payloadSize size) ?_
  intro q
  by_cases same : q = r
  · subst same
    exact Or.inr ⟨noLoan, sent⟩
  · exact Or.inl (congrArg Pending.replyReceived (update_of_ne same ..))

theorem ipcReplyStaged (base : Base s) {tid : Tid}
    {reply : Reply} (safe : ∀ r, s.slot tid = some r → ¬ OnLoan s r ∧
      (0 < (s.requests r).payloadSize → s.pc (s.requests r).thread ≠ .sendPublished r)) :
    Lent (ipcReplyStaged s t tid reply) := by
  unfold Channel.ipcReplyStaged
  split
  · exact { lent with }
  next r set =>
    have set' : s.slot tid = some r := by
      split at set
      · exact set
      · cases set
    obtain ⟨noLoan, published⟩ := safe r set'
    obtain ⟨_, _, inside⟩ := base.slot_owner tid r set'
    have settled := lent.settleOne r { s.requests r with
        reply := some reply
        replyReceived := true
        replyWait := (s.requests r).replyWait.tail } rfl rfl noLoan ?_
    · exact { settled with }
    intro size u _ unsent
    have owner := (base.owner u r (Pc.request_of_unsent unsent)).1
    have here := published size
    rw [owner] at inside here
    exact here (Pc.eq_published unsent inside)

theorem sysReply (base : Base s) {tid : Tid} {answers : Option Request}
    {payload : Bool} (safe : LoanSafe s (.call t (.reply tid answers payload))) :
    Lent (sysReply s t tid answers payload) := by
  unfold Channel.sysReply
  split
  · have staged : Lent { s with nextBuffer := s.nextBuffer + 1 } := { lent with }
    have stagedBase : Base { s with nextBuffer := s.nextBuffer + 1 } := { base with }
    exact staged.ipcReplyStaged stagedBase safe
  · exact lent.ipcReplyStaged base safe

theorem destroyMark {p : PortRef} (here : s.pc t = .destroyMark p)
    (safe : ∀ r ∈ markBatch s p, ¬ OnLoan s r) : Lent (destroyMark s t p) := by
  have settled := lent.settle (fun r =>
    if r ∈ markBatch s p then
      { s.requests r with portDead := true, replyReceived := true }
    else s.requests r) ?_ ?_ ?_
  · have unlinked := settled.brush ((Brush.refl _).setPort p { s.ports p with
        pendingSenders := (s.ports p).pendingSenders.filter (fun r => r ∉ markBatch s p) }
      (fun _ member => (mem_filter.mp member).1) (fun _ => .inl))
    refine unlinked.move here (Or.inl rfl) (Or.inl ?_)
    split <;> rfl
  · intro r
    split <;> rfl
  · intro r
    split <;> rfl
  · intro r
    split
    · next marked =>
        refine Or.inr ⟨safe r marked, fun _ u _ => ?_⟩
        have member := (mem_filter.mp (mem_of_mem_take marked)).1
        exact (lent.linked p r member).2 u
    · exact Or.inl rfl

theorem die (safe : ∀ r, (s.pc t).waiting = some r → ¬ OnLoan s r) : Lent (s.setLife t .dead) := by
  refine ⟨?_, ?_, lent.linked⟩
  · intro p entry member borrowed
    obtain ⟨r, request, alive, inside, noReply⟩ := lent.waits p entry member borrowed
    refine ⟨r, request, ?_, inside, noReply⟩
    refine update_cases (motive := fun life : Life => life = .alive) ?_ (fun _ => alive)
    intro equal
    have equal' : (s.requests r).thread = t := equal
    rw [equal'] at inside
    exact absurd ⟨p, entry, member, borrowed, request⟩ (safe r inside)
  · intro u r inside
    exact update_cases (motive := fun life : Life => life = .alive → _) nofun
      (fun _ alive => lent.unsent u r inside alive)

theorem setLife {life : Life} (dead : s.life t ≠ .alive)
    (still : life ≠ .alive) : Lent (s.setLife t life) := by
  refine lent.frame (fun _ => rfl) rfl (fun p _ member _ => ⟨p, member⟩)
    (fun p _ member => ⟨p, member⟩) ?_ ?_ (fun _ _ inside _ => inside) (fun _ _ inside => inside)
  · intro u r alive _
    refine update_cases (motive := fun life : Life => life = .alive) ?_ (fun _ => alive)
    rintro rfl
    exact absurd alive dead
  · intro u r
    refine update_cases (motive := fun life : Life => life = .alive → _) ?_ (fun _ alive _ => alive)
    intro _ alive
    exact absurd alive still

theorem cleanup (base : Base s) (dead : s.life t = .dead) : Lent (ipcCleanupThread s t) := by
  have notAlive : s.life t ≠ .alive := by simp [dead]
  unfold ipcCleanupThread
  split
  · exact lent.setLife notAlive (by simp)
  next r set =>
    have mine := base.slot_mine dead set
    have settled : Lent ((s.setSlot (s.tidOf t) none).setRequest r
        { s.requests r with portDead := true, replyReceived := true }) := by
      refine (lent.setSlot (s.tidOf t) none).settleOne r _ rfl rfl ?_ ?_
      · rintro ⟨p, entry, member, borrowed, request⟩
        obtain ⟨_, request', alive, _⟩ := lent.waits p entry member borrowed
        cases request.symm.trans request'
        rw [mine] at alive
        exact notAlive alive
      · intro _ u alive unsent
        have owner := (base.owner u r (Pc.request_of_unsent unsent)).1
        rw [← owner, mine] at alive
        exact notAlive alive
    dsimp only
    split
    · exact settled.setLife notAlive (by simp)
    · next p _ => exact (settled.brush ((Brush.refl _).takeRef p)).setLife notAlive (by simp)

theorem spawn (base : Base s) (tid : Tid) (pid : Nat) : Lent (spawn s tid pid) := by
  refine lent.frame (fun _ => rfl) rfl (fun p _ member _ => ⟨p, member⟩)
    (fun p _ member => ⟨p, member⟩) ?_ ?_ (fun _ _ inside _ => inside) (fun _ _ inside => inside)
  · intro u r alive _
    exact update_cases (motive := fun life : Life => life = .alive) (fun _ => rfl) (fun _ => alive)
  intro u r
  refine update_cases (motive := fun life : Life => life = .alive → _) ?_ (fun _ alive _ => alive)
  intro equal _ inside
  have inside' : (s.pc u).unsent = some r := inside
  rw [equal, (base.unborn _ (le_refl _)).2] at inside'
  cases inside'

theorem turn (base : Base s) {flag : Bool} (alive : s.life t = .alive)
    (safe : LoanSafe s (.run t flag)) (turn : Turn s t flag s') : Lent s' := by
  cases turn with
  | walk here lane =>
    refine (lent.brush lane.brush).move ((congrFun lane.brush.pc t).trans here) ?_ ?_
    all_goals
      cases lane with
      | quiet way =>
        cases way <;> first | exact Or.inl rfl | exact Or.inr rfl
      | _ => first | exact Or.inl rfl | exact Or.inr rfl
  | pass here leaves received =>
    -- a sender that has its reply lends nothing any more
    have left := lent.brush leaves.brush
    refine left.setPc ((congrFun leaves.brush.pc t).trans here) ?_ nofun
    intro q inside noReply
    have record := leaves.brush.records q
    cases leaves
    all_goals
      cases inside
      rw [record] at noReply
      cases received.symm.trans noReply
  | newRequest here pending _ fresh => exact lent.newRequest base here pending fresh.2.2.2.1
  | publish here => exact (lent.setSlot _ _).move here (Or.inl rfl) (Or.inr rfl)
  | enqueue here _ entry port sent queue senders =>
    exact lent.enqueue base entry port alive here sent.1 sent.2 queue senders
  | refuse here => exact (lent.setSlot _ _).move here (Or.inl rfl) (Or.inl rfl)
  | retract here => exact (lent.setSlot _ _).move here (Or.inl rfl) (Or.inl rfl)
  | deliver here _ result =>
    refine move (s := State.setResult _ t result) ?_ here (Or.inl rfl) (Or.inl rfl)
    exact { lent with }
  | mark here => exact lent.destroyMark here (safe _ here)

end

end Lent

/-! ### Whole runs -/

theorem lent_step (s : State) (label : Label) (s' : State) (inv : Base s ∧ Lent s)
    (taken : Lib.Guarded Step LoanSafe s label s') : Base s' ∧ Lent s' := by
  obtain ⟨taken, safe⟩ := taken
  obtain ⟨base, lent⟩ := inv
  refine ⟨base_step s label s' base taken, ?_⟩
  cases stride_of_step taken with
  | run alive _ turn => exact lent.turn base alive safe turn
  | missing _ touch => exact lent.brush touch.toBrush
  | found _ here _ door =>
    refine (lent.brush (.takeRef (.refl s) _)).move here (Or.inl rfl) (Or.inl ?_)
    cases door <;> rfl
  | @create t id =>
    have fresh := lent.brush ((Brush.refl s).setPort s.nextPort
      ⟨id, s.pidOf t, .active, (s.generation id + 1) % 2 ^ 32, 1, [], 0, [], []⟩ nofun nofun)
    exact { fresh with }
  | reply => exact lent.sysReply base safe
  | destroy _ here => exact (lent.brush (.close ..)).move here (Or.inl rfl) (Or.inl rfl)
  | unblock => exact { lent with }
  | spawn => exact lent.spawn base _ _
  | kill _ brush => exact (lent.die safe).brush brush
  | cleanup dead => exact lent.cleanup base dead
  | @bury t _ _ _ unlinking brush =>
    have buried : Lent (s.setLife t .cleaned) := lent.setLife (by simp [unlinking]) (by simp)
    exact buried.brush brush
  | @reap t cleaned =>
    have reaped : Lent (s.setLife t .reaped) := lent.setLife (by simp [cleaned]) (by simp)
    exact { reaped with }

/-- In every run of such steps a queued message with a borrowed payload belongs
to a sender that is alive and blocked on exactly that message. -/
theorem borrowed_payloads_live {labels : List Label} {s : State} (run : Lib.Steps
    (Lib.Guarded Step LoanSafe) initial labels s) : ∀ p entry, entry ∈ (s.ports p).msgQueue →
    entry.Borrowed → ∃ r, entry.request = some r ∧ Waits s r :=
  (run.invariant lent_step ⟨base_initial, lent_initial⟩).2.waits

/-- A client has its message with a payload of 16 bytes in the queue of port 5,
and waits. -/
def waitingClientRun : List Label :=
  [.spawn 1 10, .spawn 2 20, .call 1 (.create 5), .call 0 (.send 5 16),
    .run 0 true, .run 0 true, .run 0 true, .run 0 true, .run 0 true, .run 0 true, .run 0 true]

/-- The state that run ends in. -/
def waitingClientState : State := (execAll initial waitingClientRun).getD initial

/-- An executable test that implies `LoanSafe`: no reply, kill or marking. -/
def loanCheck (s : State) : Label → Bool
  | .call _ (.reply _ _ _) => false
  | .run t _ =>
    match s.pc t with
    | .destroyMark _ => false
    | _ => true
  | .kill _ => false
  | _ => true

theorem loanSafe_of_check (s : State) (label : Label)
    (checked : loanCheck s label = true) : LoanSafe s label := by
  cases label with
  | run =>
    intro p here
    simp [loanCheck, here] at checked
  | kill => cases checked
  | call _ call =>
    cases call with
    | reply => cases checked
    | _ => trivial
  | _ => trivial

/-- The message in the queue of port 5 is lent by a client that waits. -/
theorem borrowed_payloads_live_waiting : ∃ entry ∈ (waitingClientState.ports 0).msgQueue,
    entry.Borrowed ∧ ∃ r, entry.request = some r ∧ Waits waitingClientState r := by
  have run : Lib.Steps (Lib.Guarded Step LoanSafe) initial waitingClientRun
      waitingClientState := steps_of_execChecked loanSafe_of_check rfl
  have member : (⟨10, 1, some 0, 16, false⟩ : Entry) ∈
      (waitingClientState.ports 0).msgQueue := mem_cons_self
  have borrowed : (⟨10, 1, some 0, 16, false⟩ : Entry).Borrowed := ⟨rfl, by decide⟩
  exact ⟨_, member, borrowed, borrowed_payloads_live run 0 _ member borrowed⟩

/-- A third process replies to the client's thread number although nobody has
taken its message; the client returns to user mode. -/
def forgedReplyRun : List Label :=
  waitingClientRun ++ [.spawn 3 30, .call 2 (.reply 1 none false), .unblock 2,
    .run 0 true, .run 0 true, .run 0 true, .run 0 true, .run 0 true, .run 0 true]

/-- The state that run ends in. -/
def forgedReplyState : State := (execAll initial forgedReplyRun).getD initial

/-- Without the side conditions the property fails: the client is gone from its
send, and its message with the borrowed payload is still in the queue. -/
theorem forged_reply_leaves_payload : Lib.Steps Step initial forgedReplyRun forgedReplyState ∧
    forgedReplyState.pc 0 = .user ∧ ¬ ∀ p entry, entry ∈ (forgedReplyState.ports p).msgQueue →
        entry.Borrowed → ∃ r, entry.request = some r ∧ Waits forgedReplyState r := by
  refine ⟨steps_of_execAll rfl, rfl, ?_⟩
  intro live
  have member : (⟨10, 1, some 0, 16, false⟩ : Entry) ∈
      (forgedReplyState.ports 0).msgQueue := mem_cons_self
  obtain ⟨r, request, _, waiting, _⟩ := live 0 _ member ⟨rfl, by decide⟩
  cases request
  cases waiting

end MainDob.Kernel.Channel
