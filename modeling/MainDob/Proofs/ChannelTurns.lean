/-
Purpose: What one IPC step does, said once. Most sections touch only the queues and wait lists of
  ports and records, the threads that are blocked and those in hand, and move their thread on; the
  others are named one by one.
Main exports: update_view, update_cases, tryConsume_cases
-/
import MainDob.Kernel.Channel

namespace MainDob.Kernel.Channel

open Function (update update_of_ne update_self)
open List Option

/-! ### Tables -/

theorem update_view {α β : Type} (view : α → β) {rows : Nat → α} {i : Nat} {row : α}
    (same : view row = view (rows i)) (j : Nat) : view (update rows i row j) = view (rows j) := by
  by_cases here : j = i
  · subst here
    rw [update_self, same]
  · rw [update_of_ne here]

theorem update_cases {α : Type} {motive : α → Prop} {rows : Nat → α} {i j : Nat}
    {row : α} (here : j = i → motive row) (there : j ≠ i → motive (rows j)) :
    motive (update rows i row j) := by
  by_cases same : j = i
  · subst same
    rw [update_self]
    exact here rfl
  · rw [update_of_ne same]
    exact there same

section Touching

variable {s m : State} {t : Thread} {p : PortRef}

theorem hands_update (empty : s.hands t = []) (threads : List Thread) (w u : Thread)
    (member : u ∈ s.hands w) : u ∈ update s.hands t threads w := by
  refine update_cases (motive := fun hands => u ∈ hands) ?_ (fun _ => member)
  rintro rfl
  rw [empty] at member
  cases member

theorem tryConsume_cases (found : tryConsume s p = some m) :
    ∃ entry rest, (s.ports p).msgQueue = entry :: rest ∧ ((∃ r, entry.request = some r ∧
          m = (s.setPort p
            { s.ports p with msgQueue := rest, msgCount := (s.ports p).msgCount - 1 }).setRequest r
            { s.requests r with taken := true }) ∨
        (entry.request = none ∧ m = s.setPort p
            { s.ports p with msgQueue := rest, msgCount := (s.ports p).msgCount - 1 })) := by
  unfold tryConsume at found
  split at found
  · cases found
  next entry rest queue =>
    refine ⟨entry, rest, queue, ?_⟩
    split at found
    · next r request => exact Or.inl ⟨r, request, (Option.some.inj found).symm⟩
    · next request => exact Or.inr ⟨request, (Option.some.inj found).symm⟩

/-! ### Sections that keep every record -/

/-- Nobody starts, answers, marks or links a request: only marks on taken
messages, wait lists, and what is on the ports change, and ports queue at most
a post. -/
structure Brush (s m : State) : Prop where
  rest : m = { s with
    table := m.table
    requests := m.requests
    ports := m.ports
    blocked := m.blocked
    hands := m.hands
    result := m.result }
  table : ∀ id p, m.table id = some p → s.table id = some p
  records : ∀ r, m.requests r = { s.requests r with
      replyWait := (m.requests r).replyWait
      taken := (m.requests r).taken }
  taken : ∀ r, (m.requests r).taken = true → (s.requests r).taken = true ∨
    ∃ p entry, entry ∈ (s.ports p).msgQueue ∧ entry.request = some r
  queues : ∀ p entry, entry ∈ (m.ports p).msgQueue →
    entry ∈ (s.ports p).msgQueue ∨ (entry.payloadOwned = true ∧ entry.request = none)
  senders : ∀ p, (m.ports p).pendingSenders ⊆ (s.ports p).pendingSenders

namespace Brush

theorem refl (s : State) : Brush s s :=
  ⟨rfl, fun _ _ => id, fun _ => rfl, fun _ => .inl, fun _ _ => .inl, fun _ _ => id⟩

section

variable (brush : Brush s m)
include brush

theorem life : m.life = s.life := by rw [brush.rest]

theorem pc : m.pc = s.pc := by rw [brush.rest]

theorem setPort (p : PortRef) (port : PortRec) (senders : port.pendingSenders ⊆
    (m.ports p).pendingSenders) (queue : ∀ entry ∈ port.msgQueue, entry ∈ (m.ports p).msgQueue ∨
      (entry.payloadOwned = true ∧ entry.request = none)) : Brush s (m.setPort p port) :=
  { brush with
    rest := congrArg (fun m => m.setPort p port) brush.rest
    queues := by
      intro q entry
      refine update_cases (motive := fun port : PortRec =>
        entry ∈ port.msgQueue → _) ?_ (fun _ => brush.queues q entry)
      rintro rfl member
      exact (queue entry member).elim (brush.queues q entry) .inr
    senders := fun q => update_cases (motive := fun port : PortRec =>
      port.pendingSenders ⊆ _)
      (by rintro rfl; exact List.Subset.trans senders (brush.senders q))
      (fun _ => brush.senders q) }

theorem setWait (r : Request) (waiters : List Thread) :
    Brush s (m.setRequest r { m.requests r with replyWait := waiters }) :=
  { brush with
    rest := congrArg (fun state => state.setRequest r
      { m.requests r with replyWait := waiters }) brush.rest
    records := fun q => update_cases (motive := fun pending : Pending =>
      pending = { s.requests q with replyWait := pending.replyWait, taken := pending.taken })
      (by rintro rfl; rw [brush.records q]) (fun _ => brush.records q)
    taken := fun q => update_cases (motive := fun pending : Pending =>
      pending.taken = true → _)
      (by rintro rfl; exact brush.taken q) (fun _ => brush.taken q) }

theorem setBlocked (u : Thread) (value : Bool) : Brush s (m.setBlocked u value) :=
  { brush with rest := congrArg (fun m => m.setBlocked u value) brush.rest }

theorem setHands (t : Thread) (threads : List Thread) : Brush s (m.setHands t threads) :=
  { brush with rest := congrArg (fun m => m.setHands t threads) brush.rest }

theorem setResult (t : Thread) (result : IpcResult) : Brush s (m.setResult t result) :=
  { brush with rest := congrArg (fun m => m.setResult t result) brush.rest }

theorem setLife (t : Thread) (life : Life) : Brush (s.setLife t life) (m.setLife t life) :=
  { brush with rest := congrArg (fun m => m.setLife t life) brush.rest }

theorem ipcPortPut (p : PortRef) : Brush s (ipcPortPut m p) := by
  refine brush.setPort p _ (fun _ => id) ?_
  intro entry member
  split at member
  · cases member
  · exact .inl member

theorem takeRef (p : PortRef) : Brush s (takeRef m p) :=
  brush.setPort p _ (fun _ same => same) (fun _ => .inl)

end

theorem close (s : State) (id : Nat) (p : PortRef) :
    Brush s ({ s with table := update s.table id none }.setPort p
      { s.ports p with state := .closed }) :=
  { (refl s).setPort p { s.ports p with state := .closed } (fun _ same => same)
      (fun _ => .inl) with
    rest := rfl
    table := fun _ q => update_cases (motive := fun slot => slot = some q → _)
      nofun (fun _ same => same) }

end Brush

/-- What a port shows to a waker of its senders. -/
def PortRec.wakeView (port : PortRec) : Port.PortState × List Request :=
  (port.state, port.pendingSenders)

/-- A section of `t` that sends no sender to sleep and wakes none. -/
structure Touch (s : State) (t : Thread) (m : State) : Prop extends Brush s m where
  waits : ∀ r, (m.requests r).replyWait = (s.requests r).replyWait
  ports : ∀ p, (m.ports p).wakeView = (s.ports p).wakeView
  blocked : ∀ u, m.blocked u = true → s.blocked u = true ∨ (u = t ∧ ∃ p, s.pc t = .recvPrepare p)
  hands : s.hands t = [] → ∀ w u, u ∈ s.hands w → u ∈ m.hands w

namespace Touch

theorem refl (s : State) (t : Thread) : Touch s t s :=
  ⟨.refl s, fun _ => rfl, fun _ => rfl, fun _ => .inl, fun _ _ _ => id⟩

section

variable (touch : Touch s t m)
include touch

theorem setPort (p : PortRef) (port : PortRec) (view : port.wakeView = (m.ports p).wakeView)
    (queue : ∀ entry ∈ port.msgQueue, entry ∈ (m.ports p).msgQueue ∨
      (entry.payloadOwned = true ∧ entry.request = none)) : Touch s t (m.setPort p port) :=
  { touch with
    toBrush := touch.toBrush.setPort p port
      (fun _ => (congrArg (fun view => _ ∈ view.2) view).mp) queue
    ports := fun q => (update_view PortRec.wakeView view q).trans (touch.ports q) }

theorem setWaiters (p : PortRef) (waiters : List Thread) :
    Touch s t (m.setPort p { m.ports p with recvWaiters := waiters }) :=
  touch.setPort p _ rfl fun _ => .inl

theorem setResult (result : IpcResult) : Touch s t (m.setResult t result) :=
  { touch with toBrush := touch.toBrush.setResult t result }

theorem setHands (same : m.hands = s.hands)
    (threads : List Thread) : Touch s t (m.setHands t threads) :=
  { touch with
    toBrush := touch.toBrush.setHands t threads
    hands := by
      intro empty w u member
      rw [← same] at empty member
      exact hands_update empty threads w u member }

theorem wake (u : Thread) : Touch s t (m.setBlocked u false) :=
  { touch with
    toBrush := touch.toBrush.setBlocked u false
    blocked := fun v => update_cases (motive := fun value => value = true → _)
      (fun _ => nofun) (fun _ => touch.blocked v) }

theorem sleep (here : s.pc t = .recvPrepare p) : Touch s t (m.setBlocked t true) :=
  { touch with
    toBrush := touch.toBrush.setBlocked t true
    blocked := fun v => update_cases (motive := fun value => value = true → _)
      (fun same _ => .inr ⟨same, p, here⟩) (fun _ => touch.blocked v) }

end

theorem tryConsume (taken : tryConsume s p = some m) : Touch s t m := by
  obtain ⟨entry, rest, queue, outcome⟩ := tryConsume_cases taken
  have popped := (refl s t).setPort p
    { s.ports p with msgQueue := rest, msgCount := (s.ports p).msgCount - 1 } rfl (by
    intro other member
    rw [queue]
    exact .inl (mem_cons_of_mem _ member))
  rcases outcome with ⟨r, request, rfl⟩ | ⟨_, rfl⟩
  · refine { popped with
      rest := rfl
      records := fun q => update_cases (motive := fun pending : Pending =>
        pending = { s.requests q with replyWait := pending.replyWait, taken := pending.taken })
        (by rintro rfl; rfl) (fun _ => rfl)
      waits := fun q => update_cases (motive := fun pending : Pending =>
        pending.replyWait = _) (by rintro rfl; rfl) (fun _ => rfl)
      taken := ?_ }
    intro q
    refine update_cases (motive := fun pending : Pending =>
      pending.taken = true → _) ?_ (fun _ => .inl)
    rintro rfl _
    exact .inr ⟨p, entry, by rw [queue]; exact mem_cons_self, request⟩
  · exact popped

theorem ipcPortPut (s : State) (t : Thread) (p : PortRef) : Touch s t (ipcPortPut s p) :=
  { refl s t with
    toBrush := (Brush.refl s).ipcPortPut p
    ports := update_view PortRec.wakeView rfl }

end Touch

end Touching

/-! ### Sections -/

/-- Where the sections lead that only touch. -/
inductive Way : Pc → Pc → Prop
  | noPort {p size result} : Way (.sendGot p size) (.putting p result)
  | full {r} : Way (.sendPublished r) (.sendRefused r)
  | alone {r} : Way (.sendQueued r) (.sendTest r)
  | extracted {r receiver} : Way (.sendQueued r) (.sendExtracted r receiver)
  | apart {r receiver} : Way (.sendExtracted r receiver) (.sendTest r)
  | switched {r receiver} : Way (.sendHandoff r receiver) (.sendAsleep r)
  | degraded {r receiver} : Way (.sendHandoff r receiver) (.sendTest r)
  | tested {r} : Way (.sendTest r) (.sendPrepare r)
  | woken {r} : Way (.sendAsleep r) (.sendTest r)
  | linkless {r} : Way (.sendUnlinking r) (.sendPut r)
  | put {r} : Way (.sendPut r) (.sendReturned r)
  | received {p blocking result} : Way (.recvTest p blocking) (.putting p result)
  | empty {p blocking} : Way (.recvTest p blocking) (.recvPrepare p)
  | listed {p} : Way (.recvPrepare p) (.recvPrepared p)
  | cancelled {p result} : Way (.recvPrepared p) (.putting p result)
  | asleep {p} : Way (.recvPrepared p) (.recvAsleep p)
  | roused {p} : Way (.recvAsleep p) (.recvTest p true)
  | refused {p size result} : Way (.postGot p size) (.putting p result)
  | ready {p size} : Way (.postGot p size) (.postReady p size)
  | posted {p size result} : Way (.postReady p size) (.putting p result)
  | closed {p} : Way (.destroyClosed p false) (.putting p .ok)
  | marking {p} : Way (.destroyClosed p true) (.destroyMark p)
  | again {p} : Way (.destroyBatch p [] true) (.destroyMark p)
  | over {p} : Way (.destroyBatch p [] false) (.putting p .ok)
  | done {p result} : Way (.putting p result) .user

section Sections

variable (s : State) (t : Thread) (flag : Bool)

/-- The sections that keep every record. -/
inductive Lane : Pc → Pc → State → Prop
  | quiet {old new m} (way : Way old new) (touch : Touch s t m) : Lane old new m
  | handoff {r receiver} (sameCpu : flag = true) :
      Lane (.sendExtracted r receiver) (.sendHandoff r receiver) (prepareReplyWait s t r)
  | prepare {r} :
      Lane (.sendPrepare r) (.sendPrepared r) (prepareReplyWait s t r)
  | sleep {r} (noReply : ¬ (s.requests r).replyReceived = true) :
      Lane (.sendPrepared r) (.sendAsleep r) s
  | unlink {r} :
      Lane (.sendUnlinking r) (.sendPut r) (s.setPort (s.requests r).port
        { s.ports (s.requests r).port with
          pendingSenders :=
            (s.ports (s.requests r).port).pendingSenders.erase r })
  | wake {p r rest more} :
      Lane (.destroyBatch p (r :: rest) more) (.destroyBatch p rest more)
        ((s.setRequest r { s.requests r with replyWait := [] }).setHands t
          (s.requests r).replyWait)

/-- The ways out of the wait loop, for a sender with a reply. -/
inductive Exit (r : Request) : Pc → State → Prop
  | tested : Exit r (.sendTest r) s
  | cancelled : Exit r (.sendPrepared r) ((s.setRequest r
      { s.requests r with
        replyWait := (s.requests r).replyWait.erase t }).setBlocked t false)

/-- What the next section of thread `t` does. -/
inductive Turn : State → Prop
  | walk {old new m} (here : s.pc t = old) (lane : Lane s t flag old new m) :
      Turn (m.setPc t new)
  | pass {r old m} (here : s.pc t = old) (leaves : Exit s t r old m)
      (received : (s.requests r).replyReceived = true) :
      Turn (m.setPc t (.sendLeaving r))
  | newRequest {p size} (here : s.pc t = .sendGot p size) (pending : Pending)
      (home : pending.thread = t ∧ pending.port = p)
      (fresh : pending.reply = none ∧ pending.taken = false ∧
        pending.portDead = false ∧ pending.replyReceived = false ∧ pending.replyWait = []) :
      Turn { s with
        requests := update s.requests s.nextRequest pending
        nextRequest := s.nextRequest + 1
        pc := update s.pc t (.sendReady s.nextRequest) }
  | publish {r} (here : s.pc t = .sendReady r) :
      Turn ((s.setSlot (s.tidOf t) (some r)).setPc t (.sendPublished r))
  | enqueue {r} (here : s.pc t = .sendPublished r)
      (room : (s.ports (s.requests r).port).msgCount < portQueueMax)
      (entry : Entry) (port : PortRec)
      (sent : entry.request = some r ∧ entry.payloadSize = (s.requests r).payloadSize)
      (queue : port.msgQueue = (s.ports (s.requests r).port).msgQueue ++ [entry])
      (senders : port.pendingSenders = (s.ports (s.requests r).port).pendingSenders ++ [r])
      (state : port.state = (s.ports (s.requests r).port).state) :
      Turn ((s.setPort (s.requests r).port port).setPc t (.sendQueued r))
  | refuse {r} (here : s.pc t = .sendRefused r) :
      Turn ((s.setSlot (s.tidOf t) none).setPc t (.putting (s.requests r).port .portFull))
  | retract {r} (here : s.pc t = .sendLeaving r) :
      Turn ((s.setSlot (s.tidOf t) none).setPc t (.sendUnlinking r))
  | deliver {r} (here : s.pc t = .sendReturned r) (payload : Option Buffer)
      (result : IpcResult) (books : (s.requests r).portDead = true ∧ payload = none ∨
          (s.requests r).portDead = false ∧ payload = (s.requests r).reply.bind Reply.payload) :
      Turn ((({ s with
        handed := s.handed ++ payload.toList.map (fun b => (b, r)) }).setResult t
          result).setPc t .user)
  | mark {p} (here : s.pc t = .destroyMark p) : Turn (destroyMark s t p)

variable {s t flag}

theorem Lane.brush {old new : Pc} {m : State} (lane : Lane s t flag old new m) : Brush s m := by
  have still := Brush.refl s
  cases lane with
  | quiet _ touch => exact touch.toBrush
  | handoff | prepare => exact (still.setWait ..).setBlocked t true
  | sleep => exact still
  | unlink => exact still.setPort _ _ erase_subset fun _ => .inl
  | wake => exact (still.setWait ..).setHands t _

theorem Exit.brush {r : Request} {old : Pc} {m : State}
    (leaves : Exit s t r old m) : Brush s m := by
  cases leaves with
  | tested => exact .refl s
  | cancelled => exact ((Brush.refl s).setWait ..).setBlocked t false

theorem Turn.quiet {old new : Pc} {m : State} (here : s.pc t = old)
    (way : Way old new) (touch : Touch s t m) : Turn s t flag (m.setPc t new) :=
  .walk here (.quiet way touch)

theorem turn_of_advance {s' : State} (moved : advance s t flag = some s') : Turn s t flag s' := by
  have still := Touch.refl s t
  unfold advance at moved
  split at moved
  · cases moved
  · next p size here =>
      cases moved
      unfold sendCheck
      split
      · exact .quiet here .noPort still
      split
      · exact .newRequest here _ ⟨rfl, rfl⟩ ⟨rfl, rfl, rfl, rfl, rfl⟩
      · exact .quiet here .noPort still
  · next r here =>
      cases moved
      exact .publish here
  · next r here =>
      cases moved
      unfold sendEnqueue
      dsimp only
      split
      · exact .quiet here .full still
      · next room => exact .enqueue here (Nat.lt_of_not_le room) _ _ ⟨rfl, rfl⟩ rfl rfl rfl
  · next r here =>
      cases moved
      exact .refuse here
  · next r here =>
      cases moved
      unfold sendExtract
      dsimp only
      split
      · exact .quiet here .alone still
      · exact .quiet here .extracted (still.setWaiters _ _)
  · next r receiver here =>
      cases moved
      unfold sendHandoff
      split
      · next sameCpu => exact .walk here (.handoff sameCpu)
      · exact .quiet here .apart (still.setHands rfl _)
  · next r receiver here =>
      cases moved
      unfold sendSwitch
      split
      · exact .quiet here .switched (still.wake receiver)
      · exact .quiet here .degraded still
  · next r here =>
      cases moved
      unfold sendTest
      split
      · next received => exact .pass here .tested received
      · exact .quiet here .tested still
  · next r here =>
      cases moved
      exact .walk here .prepare
  · next r here =>
      cases moved
      unfold sendRecheck
      split
      · next received => exact .pass here .cancelled received
      · next noReply => exact .walk here (.sleep noReply)
  · next r here =>
      split at moved
      · cases moved
      · cases moved
        exact .quiet here .woken still
  · next r here =>
      cases moved
      exact .retract here
  · next r here =>
      cases moved
      unfold sendUnlink
      dsimp only
      split
      · exact .walk here .unlink
      · exact .quiet here .linkless still
  · next r here =>
      cases moved
      exact .quiet here .put (.ipcPortPut ..)
  · next r here =>
      cases moved
      unfold sysSendReturn
      split
      · next dead =>
          have left : Turn s t flag _ := .deliver here none .dead (.inl ⟨dead, rfl⟩)
          simpa using left
      · next alive => exact .deliver here _ .ok (.inr ⟨by simpa using alive, rfl⟩)
  · next p blocking here =>
      cases moved
      unfold recvTest
      split
      · exact .quiet here .received still
      split
      · next popped taken => exact .quiet here .received (.tryConsume taken)
      split
      · exact .quiet here .received still
      split
      · exact .quiet here .empty still
      · exact .quiet here .received still
  · next p here =>
      cases moved
      exact .quiet here .listed ((still.setWaiters p _).sleep here)
  · next p here =>
      cases moved
      unfold recvRecheck recvCancel
      split
      · next popped taken =>
          exact .quiet here .cancelled (((Touch.tryConsume taken).setWaiters p _).wake t)
      · split
        · exact .quiet here .cancelled ((still.setWaiters p _).wake t)
        · exact .quiet here .asleep still
  · next p here =>
      split at moved
      · cases moved
      · cases moved
        exact .quiet here .roused still
  · next p size here =>
      cases moved
      unfold postCheck
      split
      · exact .quiet here .refused still
      split
      · exact .quiet here .ready still
      · exact .quiet here .refused still
  · next p size here =>
      cases moved
      unfold postEnqueue
      dsimp only
      split
      · exact .quiet here .posted still
      refine .quiet here .posted ((Touch.setPort still p _ ?_ ?_).setHands rfl _)
      · rfl
      -- a post owns its payload and is nobody's request
      intro entry member
      rcases mem_append.mp member with before | new
      · exact .inl before
      · rw [mem_singleton.mp new]
        exact .inr ⟨rfl, rfl⟩
  · next p hasPending here =>
      cases moved
      have closed := (still.setWaiters p []).setHands rfl (s.ports p).recvWaiters
      cases hasPending with
      | false => exact .quiet here .closed closed
      | true => exact .quiet here .marking closed
  · next p here =>
      cases moved
      exact .mark here
  · next p batch more here =>
      cases moved
      cases batch with
      | nil =>
        cases more with
        | false => exact .quiet here .over still
        | true => exact .quiet here .again still
      | cons => exact .walk here .wake
  · next p result here =>
      cases moved
      exact .quiet here .done ((Touch.ipcPortPut s t p).setResult result)

/-! ### Steps -/

/-- Where a call goes that has found its port. -/
inductive Door (p : PortRef) : Pc → Prop
  | send {size} : Door p (.sendGot p size)
  | receive {blocking} : Door p (.recvTest p blocking)
  | post {size} : Door p (.postGot p size)

end Sections

section Steps

variable (s : State)

/-- What a step does. -/
inductive Stride : Label → State → Prop
  | run {t flag s'} (alive : s.life t = .alive) (empty : s.hands t = [])
      (turn : Turn s t flag s') : Stride (.run t flag) s'
  | missing {t call m} (empty : s.hands t = []) (touch : Touch s t m) :
      Stride (.call t call) m
  | found {t call id p new} (alive : s.life t = .alive) (here : s.pc t = .user)
      (listed : s.table id = some p) (door : Door p new) :
      Stride (.call t call) ((takeRef s p).setPc t new)
  | create {t id} : Stride (.call t (.create id)) (ipcPortCreate s t id)
  | reply {t tid answers payload} (empty : s.hands t = []) :
      Stride (.call t (.reply tid answers payload)) (sysReply s t tid answers payload)
  | destroy {t id p} (alive : s.life t = .alive) (here : s.pc t = .user) :
      Stride (.call t (.destroy id)) (({ s with table := update s.table id none }.setPort p
          { s.ports p with state := .closed }).setPc t
          (.destroyClosed p !(s.ports p).pendingSenders.isEmpty))
  | unblock {t first rest} (hands : s.hands t = first :: rest) :
      Stride (.unblock t) ((s.setBlocked first false).setHands t rest)
  | spawn {tid pid} (free : s.tidOwner tid = none) :
      Stride (.spawn tid pid) (spawn s tid pid)
  | kill {t m} (alive : s.life t = .alive)
      (brush : Brush (s.setLife t .dead) m) : Stride (.kill t) m
  | cleanup {t} (dead : s.life t = .dead) :
      Stride (.cleanup t) (ipcCleanupThread s t)
  | bury {t r port m} (unlinking : s.life t = .unlinking r port)
      (brush : Brush (s.setLife t .cleaned) m) : Stride (.cleanup t) m
  | reap {t} (cleaned : s.life t = .cleaned) : Stride (.reap t) (reapDetach s t)

variable {s} {t : Thread}

theorem Stride.withPort {call : Call} {id : Nat} {next : PortRef → Pc} {missing : IpcResult}
    (alive : s.life t = .alive) (empty : s.hands t = []) (here : s.pc t = .user)
    (door : ∀ p, Door p (next p)) : Stride s (.call t call) (withPort s t id next missing) := by
  unfold Channel.withPort
  split
  · next p found =>
      have listed : s.table id = some p := by
        unfold ipcPortGet at found
        split at found
        · split at found
          · split at found
            · cases found
            · cases found
              assumption
          · cases found
        · cases found
      exact .found alive here listed (door p)
  · exact .missing empty ((Touch.refl s t).setResult missing)

theorem stride_of_step {label : Label} {s' : State} (taken : Step s label s') :
    Stride s label s' := by
  have still := Brush.refl s
  unfold Step step at taken
  cases label with
  | call t call =>
    simp only [ready, Bool.and_eq_true, decide_eq_true_eq,
      ite_none_right_eq_some, List.isEmpty_iff] at taken
    obtain ⟨⟨⟨alive, empty⟩, here⟩, entered⟩ := taken
    unfold enter at entered
    cases call with
    | create =>
      simp only [ite_none_right_eq_some, Option.some.injEq] at entered
      obtain ⟨_, rfl⟩ := entered
      exact .create
    | reply =>
      cases entered
      exact .reply empty
    | destroy =>
      cases entered
      unfold ipcPortDestroy
      split
      · split
        · exact .missing empty (.refl s t)
        · exact .destroy alive here
      · exact .missing empty (.refl s t)
    | _ =>
      cases entered
      exact .withPort alive empty here fun _ => by constructor
  | run =>
    simp only [ready, Bool.and_eq_true, decide_eq_true_eq,
      ite_none_right_eq_some, List.isEmpty_iff] at taken
    obtain ⟨⟨alive, empty⟩, moved⟩ := taken
    exact .run alive empty (turn_of_advance moved)
  | unblock =>
    simp only [ite_none_right_eq_some] at taken
    obtain ⟨_, woken⟩ := taken
    split at woken
    · cases woken
    next first rest hands =>
      cases woken
      exact .unblock hands
  | spawn =>
    simp only [Bool.and_eq_true, ite_none_right_eq_some,
      Option.some.injEq, isNone_iff_eq_none] at taken
    obtain ⟨⟨_, free⟩, rfl⟩ := taken
    exact .spawn free
  | kill t =>
    simp only [ite_none_right_eq_some, Option.some.injEq] at taken
    obtain ⟨alive, rfl⟩ := taken
    refine .kill alive (Brush.setLife ?_ t .dead)
    split
    all_goals first
      | exact still.setWait ..
      | exact still.setPort _ _ (fun _ => id) (fun _ => .inl)
      | exact still
  | cleanup t =>
    dsimp only at taken
    split at taken
    · next dead =>
        cases taken
        exact .cleanup dead
    · next r port unlinking =>
        cases taken
        cases port with
        | none => exact .bury unlinking (still.setLife t .cleaned)
        | some p =>
          refine .bury unlinking (Brush.setLife (.ipcPortPut ?_ p) t .cleaned)
          split
          · exact still.setPort _ _ erase_subset (fun _ => .inl)
          · exact still
    · cases taken
  | reap =>
    simp only [ite_none_right_eq_some, Option.some.injEq] at taken
    obtain ⟨cleaned, rfl⟩ := taken
    exact .reap cleaned

end Steps

end MainDob.Kernel.Channel
