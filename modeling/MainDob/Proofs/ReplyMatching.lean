/-
Purpose: Which replies reach which senders, and what becomes of their payload. In every
  interleaving in which a server answers each request it has taken at most once and before the
  request is ended by other means, a reply reaches the request it answers, once, and its buffer is
  handed over or freed exactly once; a second reply to the same request overwrites the first.
Main exports: Sent, InFlight, replies_match
-/
import MainDob.Proofs.ChannelBase
import Mathlib.Data.List.Nodup
import Mathlib.Data.List.Pairwise

namespace MainDob.Kernel.Channel

open List Option

/-! ### Requests and the buffers of their replies -/

/-- The send that has not queued its message, or could not. -/
def Pc.early : Pc → Option Request
  | .sendReady r | .sendPublished r | .sendRefused r => some r
  | _ => none

/-- The message of the request has been queued. -/
def Sent (s : State) (r : Request) : Prop :=
  (s.requests r).taken = true ∨ ∃ p entry, entry ∈ (s.ports p).msgQueue ∧ entry.request = some r

/-- The sender of the request is on its way to return `IPC_OK`. -/
def InFlight (s : State) (r : Request) : Prop :=
  s.life (s.requests r).thread = .alive ∧
    (s.pc (s.requests r).thread).request = some r ∧ (s.requests r).portDead = false

/-- Buffers that a reply has put into the record of a request. -/
def placedBuffers (s : State) : List Buffer :=
  s.placed.filterMap (fun entry => entry.2.payload)

/-- The steps of well-behaved servers and killers.  A reply goes to a thread
with no request outstanding, or answers a request of that thread that a
receiver has taken, that is still without an answer or a mark, and whose sender
is alive.  No thread is killed with the payload of a reply in its record. -/
def ReplySafe (s : State) : Label → Prop
  | .call _ (.reply tid answers _) => s.slot tid = none ∨
      ∃ r, answers = some r ∧ tid < maxThreads ∧
        s.tidOf (s.requests r).thread = tid ∧ s.life (s.requests r).thread = .alive ∧
        (s.requests r).taken = true ∧ (s.requests r).replyReceived = false
  | .kill t => ∀ r reply, (s.pc t).request = some r →
      (s.requests r).reply = some reply → reply.payload = none
  | _ => True

/-- What is known of replies and their buffers. -/
structure Ledger (s : State) : Prop where
  sent_lt : ∀ r, Sent s r → r < s.nextRequest
  stays : ∀ r, Sent s r → (s.requests r).replyReceived = false →
    (s.pc (s.requests r).thread).waiting = some r
  early : ∀ t r, (s.pc t).early = some r → ∀ reply, (r, reply) ∉ s.placed
  dead : ∀ r, (s.requests r).portDead = true → (s.requests r).replyReceived = true
  received : ∀ r reply, (r, reply) ∈ s.placed →
    (s.requests r).replyReceived = true ∧ r < s.nextRequest
  matched : ∀ r reply, (r, reply) ∈ s.placed → reply.answers = some r
  once : (s.placed.map Prod.fst).Nodup
  recorded : ∀ r reply, (s.requests r).reply = some reply → r < s.nextRequest →
    (r, reply) ∈ s.placed
  buffers : (placedBuffers s ++ s.freed).Nodup
  counted : ∀ b, b ∈ placedBuffers s ++ s.freed ↔ b < s.nextBuffer
  handed_once : (s.handed.map Prod.fst).Nodup
  handed_placed : ∀ b r, (b, r) ∈ s.handed → ∃ reply, (r, reply) ∈ s.placed ∧ reply.payload = some b
  handed_left : ∀ b r, (b, r) ∈ s.handed → (s.pc (s.requests r).thread).request ≠ some r
  flight : ∀ r reply b, (r, reply) ∈ s.placed → reply.payload = some b →
    (b, r) ∈ s.handed ∨ (InFlight s r ∧ (s.requests r).reply = some reply)

theorem ledger_initial : Ledger initial where
  sent_lt := by simp [initial, Sent]
  stays := by simp [initial, Sent]
  early := by simp [initial, Pc.early]
  dead := by simp [initial]
  received := by simp [initial]
  matched := by simp [initial]
  once := nodup_nil
  recorded := by simp [initial]
  buffers := nodup_nil
  counted := by simp [initial, placedBuffers]
  handed_once := nodup_nil
  handed_placed := by simp [initial]
  handed_left := by simp [initial]
  flight := by simp [initial]

variable {r : Request}

theorem Pc.request_of_early {pc : Pc} (early : pc.early = some r) : pc.request = some r := by
  cases pc <;> first | exact early | cases early

theorem Pc.not_early_of_waiting {pc : Pc} {q : Request}
    (waiting : pc.waiting = some r) (early : pc.early = some q) : False := by
  cases pc <;> first | cases early; done | cases waiting

/-- What a record shows of its reply. -/
def Pending.replyView (pending : Pending) : Thread × Option Reply × Bool × Bool :=
  (pending.thread, pending.reply, pending.replyReceived, pending.portDead)

namespace Ledger

open Function (update update_of_ne update_self)

variable {s s' : State} {t : Thread}

section

variable (ledger : Ledger s)
include ledger

theorem frame (records : ∀ r, (s'.requests r).replyView = (s.requests r).replyView)
    (requests : s'.nextRequest = s.nextRequest)
    (books : s'.placed = s.placed ∧ s'.handed = s.handed ∧ s'.freed = s.freed ∧
      s'.nextBuffer = s.nextBuffer) (sent : ∀ r, Sent s' r → Sent s r)
    (life : ∀ u r, (s.pc u).request = some r → s.life u = .alive →
      (∃ reply b, (s.requests r).reply = some reply ∧ reply.payload = some b) → s'.life u = .alive)
      (waiting : ∀ u r, (s.pc u).waiting = some r → (s.requests r).replyReceived = false →
      (s'.pc u).waiting = some r) (request : ∀ u r, (s.pc u).request = some r →
      (s'.pc u).request = some r ∨ (s.pc u).early = some r)
    (grown : ∀ u r, (s'.pc u).request = some r → (s.pc u).request = some r)
    (early : ∀ u r, (s'.pc u).early = some r → (s.pc u).early = some r) : Ledger s' := by
  have threads : ∀ r, (s'.requests r).thread = (s.requests r).thread :=
    fun r => congrArg (fun view => view.1) (records r)
  have replies : ∀ r, (s'.requests r).reply = (s.requests r).reply :=
    fun r => congrArg (fun view => view.2.1) (records r)
  have receiveds : ∀ r, (s'.requests r).replyReceived = (s.requests r).replyReceived :=
    fun r => congrArg (fun view => view.2.2.1) (records r)
  have deads : ∀ r, (s'.requests r).portDead = (s.requests r).portDead :=
    fun r => congrArg (fun view => view.2.2.2) (records r)
  obtain ⟨placed, handed, freed, nextBuffer⟩ := books
  refine ⟨?_, ?_, ?_, ?_, ?_, ?_, ?_, ?_, ?_, ?_, ?_, ?_, ?_, ?_⟩
  · intro r inside
    rw [requests]
    exact ledger.sent_lt r (sent r inside)
  · intro r inside noReply
    rw [receiveds] at noReply
    rw [threads]
    exact waiting _ r (ledger.stays r (sent r inside) noReply) noReply
  · intro u r inside
    rw [placed]
    exact ledger.early u r (early u r inside)
  · intro r
    rw [deads, receiveds]
    exact ledger.dead r
  · intro r reply member
    rw [placed] at member
    rw [receiveds, requests]
    exact ledger.received r reply member
  · intro r reply member
    rw [placed] at member
    exact ledger.matched r reply member
  · rw [placed]
    exact ledger.once
  · intro r reply record bound
    rw [replies] at record
    rw [requests] at bound
    rw [placed]
    exact ledger.recorded r reply record bound
  · unfold placedBuffers
    rw [placed, freed]
    exact ledger.buffers
  · unfold placedBuffers
    rw [placed, freed, nextBuffer]
    exact ledger.counted
  · rw [handed]
    exact ledger.handed_once
  · intro b r member
    rw [handed] at member
    rw [placed]
    exact ledger.handed_placed b r member
  · intro b r member inside
    rw [handed] at member
    rw [threads] at inside
    exact ledger.handed_left b r member (grown _ r inside)
  intro r reply b member payload
  rw [placed] at member
  rw [handed]
  rcases ledger.flight r reply b member payload with done | ⟨flying, record⟩
  · exact Or.inl done
  obtain ⟨alive, inside, dead⟩ := flying
  refine Or.inr ⟨⟨?_, ?_, ?_⟩, ?_⟩
  · rw [threads]
    exact life _ r inside alive ⟨reply, b, record, payload⟩
  · rw [threads]
    rcases request _ r inside with kept | unsent
    · exact kept
    · exact absurd member (ledger.early _ r unsent reply)
  · rw [deads]
    exact dead
  · rw [replies]
    exact record

/-! ### Updates that touch no reply -/

theorem setSlot (tid : Tid) (r : Option Request) :
    Ledger (s.setSlot tid r) := { ledger with }

theorem brush {m : State} (brush : Brush s m) : Ledger m := by
  have records : ∀ r, (m.requests r).replyView = (s.requests r).replyView :=
    fun r => (congrArg Pending.replyView (brush.records r) :)
  rw [brush.rest]
  refine ledger.frame records rfl ⟨rfl, rfl, rfl, rfl⟩ ?_
    (fun _ _ _ alive _ => alive) (fun _ _ inside _ => inside)
    (fun _ _ inside => Or.inl inside) (fun _ _ inside => inside) (fun _ _ inside => inside)
  rintro r (taken | ⟨p, entry, member, request⟩)
  · exact brush.taken r taken
  refine Or.inr ⟨p, entry, (brush.queues p entry member).resolve_right ?_, request⟩
  rintro ⟨_, nobody⟩
  rw [request] at nobody
  cases nobody

theorem setPc {old new : Pc} (here : s.pc t = old) (waiting : ∀ r, old.waiting = some r →
      (s.requests r).replyReceived = false → new.waiting = some r)
    (request : new.request = old.request ∨ (new.request = none ∧ old.request = old.early))
    (early : new.early = none ∨ new.early = old.early) : Ledger (s.setPc t new) := by
  refine ledger.frame (fun _ => rfl) rfl ⟨rfl, rfl, rfl, rfl⟩ (fun _ sent => sent)
    (fun _ _ _ alive _ => alive) ?_ ?_ ?_ ?_
  · intro u r inside noReply
    exact waiting_kept here inside fun was => waiting r was noReply
  · intro u r inside
    refine update_cases (motive := fun pc : Pc => pc.request = some r ∨ _) ?_
      (fun _ => Or.inl inside)
    rintro rfl
    rw [here] at inside ⊢
    rcases request with same | ⟨_, unsent⟩
    · exact Or.inl (same.trans inside)
    · exact Or.inr (unsent.symm.trans inside)
  · intro u r
    refine update_cases (motive := fun pc : Pc => pc.request = some r → _) ?_ (fun _ same => same)
    rintro rfl inside
    rw [here]
    rcases request with same | ⟨gone, _⟩
    · exact same.symm.trans inside
    · rw [gone] at inside
      cases inside
  · intro u r
    refine update_cases (motive := fun pc : Pc => pc.early = some r → _) ?_ (fun _ same => same)
    rintro rfl inside
    rw [here]
    rcases early with none' | same
    · rw [none'] at inside
      cases inside
    · exact same.symm.trans inside

theorem move {old new : Pc} (here : s.pc t = old)
    (waiting : old.waiting = none ∨ new.waiting = old.waiting) (request : new.request = old.request)
    (early : new.early = none ∨ new.early = old.early) : Ledger (s.setPc t new) := by
  refine ledger.setPc here ?_ (Or.inl request) early
  intro r inside _
  rcases waiting with out | same
  · rw [out] at inside
    cases inside
  · exact same.trans inside

/-! ### Requests begin -/

theorem newRequest {p : PortRef} {size : Nat} (here : s.pc t = .sendGot p size) (pending : Pending)
    (fresh : pending.reply = none ∧ pending.taken = false ∧ pending.portDead = false) :
    Ledger { s with
      requests := update s.requests s.nextRequest pending
      nextRequest := s.nextRequest + 1
      pc := update s.pc t (.sendReady s.nextRequest) } := by
  have old : ∀ r < s.nextRequest, update s.requests s.nextRequest pending r = s.requests r :=
    fun r bound => update_of_ne (ne_of_lt bound) ..
  have pcOf : ∀ u r, (s.pc u).request = some r →
      update s.pc t (.sendReady s.nextRequest) u = s.pc u := by
    intro u r inside
    refine update_of_ne ?_ ..
    rintro rfl
    rw [here] at inside
    cases inside
  have placedOld : ∀ r reply, (r, reply) ∈ s.placed →
      update s.requests s.nextRequest pending r = s.requests r :=
    fun r reply member => old r (ledger.received r reply member).2
  have sentOld : ∀ r, (update s.requests s.nextRequest pending r).taken =
      true ∨ (∃ q entry, entry ∈ (s.ports q).msgQueue ∧ entry.request = some r) →
      Sent s r := by
    rintro r (taken | queued)
    · by_cases new : r = s.nextRequest
      · rw [new, update_self, fresh.2.1] at taken
        cases taken
      · rw [update_of_ne new] at taken
        exact Or.inl taken
    · exact Or.inr queued
  refine ⟨?_, ?_, ?_, ?_, ?_, ledger.matched, ledger.once, ?_, ledger.buffers,
    ledger.counted, ledger.handed_once, ledger.handed_placed, ?_, ?_⟩
  · intro r sent
    exact Nat.lt_succ_of_lt (ledger.sent_lt r (sentOld r sent))
  · intro r sent noReply
    have before := sentOld r sent
    have same := old r (ledger.sent_lt r before)
    simp only [same] at noReply ⊢
    have inside := ledger.stays r before noReply
    rw [pcOf _ r (Pc.request_of_published (Pc.published_of_waiting inside))]
    exact inside
  · intro u r
    refine update_cases (motive := fun pc : Pc => pc.early = some r → _) ?_
      (fun _ => ledger.early u r)
    intro _ mine reply member
    cases mine
    exact lt_irrefl _ (ledger.received _ reply member).2
  · intro r
    refine update_cases (motive := fun row : Pending =>
      row.portDead = true → row.replyReceived = true) ?_ (fun _ => ledger.dead r)
    intro _ dead
    rw [fresh.2.2] at dead
    cases dead
  · intro r reply member
    have same := placedOld r reply member
    simp only [same]
    obtain ⟨received, bound⟩ := ledger.received r reply member
    exact ⟨received, Nat.lt_succ_of_lt bound⟩
  · intro r reply record bound
    change (update s.requests s.nextRequest pending r).reply = _ at record
    by_cases new : r = s.nextRequest
    · rw [new, update_self, fresh.1] at record
      cases record
    · rw [update_of_ne new] at record
      exact ledger.recorded r reply record (Nat.lt_of_le_of_ne (Nat.lt_succ_iff.mp bound) new)
  · intro b r member
    obtain ⟨reply, placed, _⟩ := ledger.handed_placed b r member
    have same := placedOld r reply placed
    simp only [same]
    refine update_cases (motive := fun pc : Pc => pc.request ≠ some r) ?_
      (fun _ => ledger.handed_left b r member)
    intro _ mine
    cases mine
    exact lt_irrefl _ (ledger.received _ reply placed).2
  · intro r reply b member payload
    have same := placedOld r reply member
    rcases ledger.flight r reply b member payload with done | ⟨flying, record⟩
    · exact Or.inl done
    obtain ⟨alive, inside, dead⟩ := flying
    refine Or.inr ⟨?_, ?_⟩
    · unfold InFlight
      simp only [same]
      rw [pcOf _ r inside]
      exact ⟨alive, inside, dead⟩
    · simp only [same]
      exact record

theorem enqueue (base : Base s) (port : PortRec)
    (here : s.pc t = .sendPublished r) (queue : ∀ entry ∈ port.msgQueue,
      entry ∈ (s.ports (s.requests r).port).msgQueue ∨ entry.request = some r) :
    Ledger ((s.setPort (s.requests r).port port).setPc t (.sendQueued r)) := by
  obtain ⟨owner, bound⟩ := base.owner t r (by rw [here]; rfl)
  have sentOf : ∀ q, Sent ((s.setPort (s.requests r).port port).setPc t (.sendQueued r)) q →
      Sent s q ∨ q = r := by
    rintro _ (taken | ⟨p, entry, member, request⟩)
    · exact Or.inl (Or.inl taken)
    change entry ∈ (update s.ports (s.requests r).port port p).msgQueue at member
    by_cases same : p = (s.requests r).port
    · subst same
      rw [update_self] at member
      rcases queue entry member with before | new
      · exact Or.inl (Or.inr ⟨_, entry, before, request⟩)
      · exact Or.inr (Option.some.inj (request.symm.trans new))
    · rw [update_of_ne same] at member
      exact Or.inl (Or.inr ⟨p, entry, member, request⟩)
  have requestOf : ∀ u q, (update s.pc t (.sendQueued r) u).request =
      some q ↔ (s.pc u).request = some q := by
    intro u q
    refine update_cases (motive := fun pc : Pc => pc.request = some q ↔ _) ?_ (fun _ => Iff.rfl)
    rintro rfl
    rw [here]
    exact Iff.rfl
  refine ⟨?_, ?_, ?_, ledger.dead, ledger.received, ledger.matched, ledger.once, ledger.recorded,
    ledger.buffers, ledger.counted, ledger.handed_once, ledger.handed_placed, ?_, ?_⟩
  · intro q sent
    rcases sentOf q sent with before | rfl
    · exact ledger.sent_lt q before
    · exact bound
  · intro q sent noReply
    rcases sentOf q sent with before | rfl
    · have inside := ledger.stays q before noReply
      exact waiting_kept here inside nofun
    · change (update s.pc t _ (s.requests q).thread).waiting = some q
      rw [owner, update_self]
      rfl
  · intro u q
    exact update_cases (motive := fun pc : Pc => pc.early = some q → _)
      nofun (fun _ => ledger.early u q)
  · intro b q member inside
    exact ledger.handed_left b q member ((requestOf _ q).mp inside)
  · intro q reply b member payload
    rcases ledger.flight q reply b member payload with done | ⟨flying, record⟩
    · exact Or.inl done
    · obtain ⟨alive, inside, dead⟩ := flying
      exact Or.inr ⟨⟨alive, (requestOf _ q).mpr inside, dead⟩, record⟩

end

/-! ### Requests are answered -/

variable {buffers : Buffer}

section

variable (ledger : Ledger s)
include ledger

/-- A reply that answers the request in the slot is put into its record. -/
theorem place (base : Base s) {reply : Reply} (pending : Pending)
    (sent : Sent s r) (alive : s.life (s.requests r).thread = .alive)
    (noReply : (s.requests r).replyReceived = false) (answers : reply.answers = some r)
    (view : pending.replyView = ((s.requests r).thread, some reply, true, (s.requests r).portDead))
    (taken : pending.taken = (s.requests r).taken)
    (fresh : ∀ b, reply.payload = some b → ¬ b < s.nextBuffer)
    (counted : ∀ b, reply.payload = some b ∨ b < s.nextBuffer ↔ b < buffers) :
    Ledger { s with
      requests := update s.requests r pending
      placed := s.placed ++ [(r, reply)]
      nextBuffer := buffers } := by
  have threadR : pending.thread = (s.requests r).thread := congrArg (fun view => view.1) view
  have replyR : pending.reply = some reply := congrArg (fun view => view.2.1) view
  have receivedR : pending.replyReceived = true := congrArg (fun view => view.2.2.1) view
  have deadR : pending.portDead = (s.requests r).portDead := congrArg (fun view => view.2.2.2) view
  have waiting := ledger.stays r sent noReply
  have inside := Pc.request_of_published (Pc.published_of_waiting waiting)
  have notPlaced : ∀ other, (r, other) ∉ s.placed := by
    intro other member
    rw [(ledger.received r other member).1] at noReply
    cases noReply
  have threads : ∀ q, (update s.requests r pending q).thread =
      (s.requests q).thread := update_view Pending.thread threadR
  have takens : ∀ q, (update s.requests r pending q).taken =
      (s.requests q).taken := update_view Pending.taken taken
  have sentOf : ∀ q, Sent { s with
      requests := update s.requests r pending
      placed := s.placed ++ [(r, reply)]
      nextBuffer := buffers } q → Sent s q := by
    rintro q (takenQ | queued)
    · exact Or.inl ((takens q).symm.trans takenQ)
    · exact Or.inr queued
  have placedOf : ∀ q other, (q, other) ∈ s.placed ++ [(r, reply)] →
      ((q, other) ∈ s.placed ∧ q ≠ r) ∨ (q = r ∧ other = reply) := by
    intro q other member
    rcases mem_append.mp member with before | new
    · refine Or.inl ⟨before, ?_⟩
      rintro rfl
      exact notPlaced other before
    · cases mem_singleton.mp new
      exact Or.inr ⟨rfl, rfl⟩
  have buffersEq : (s.placed ++ [(r, reply)]).filterMap
      (fun entry => entry.2.payload) = placedBuffers s ++ reply.payload.toList := by
    cases payload : reply.payload <;> simp [placedBuffers, payload]
  have perm : (placedBuffers s ++ reply.payload.toList ++ s.freed).Perm
      (reply.payload.toList ++ (placedBuffers s ++ s.freed)) := by
    rw [append_assoc]
    exact perm_append_comm_assoc ..
  refine ⟨?_, ?_, ?_, ?_, ?_, ?_, ?_, ?_, ?_, ?_, ledger.handed_once, ?_, ?_, ?_⟩
  · intro q sentQ
    exact ledger.sent_lt q (sentOf q sentQ)
  · intro q sentQ noReplyQ
    have apart : q ≠ r := by
      rintro rfl
      have noReply' := (congrArg Pending.replyReceived (update_self ..)).symm.trans noReplyQ
      rw [receivedR] at noReply'
      cases noReply'
    simp only [update_of_ne apart] at noReplyQ ⊢
    exact ledger.stays q (sentOf q sentQ) noReplyQ
  · intro u q early other member
    rcases placedOf q other member with ⟨before, _⟩ | ⟨rfl, _⟩
    · exact ledger.early u q early other before
    have owner := (base.owner u q (Pc.request_of_early early)).1
    rw [owner] at waiting
    exact Pc.not_early_of_waiting waiting early
  · intro q
    refine update_cases (motive := fun row : Pending =>
      row.portDead = true → row.replyReceived = true) (fun _ _ => receivedR)
      (fun _ => ledger.dead q)
  · intro q other member
    rcases placedOf q other member with ⟨before, apart⟩ | ⟨rfl, _⟩
    · simp only [update_of_ne apart]
      exact ledger.received q other before
    · simp only [update_self]
      exact ⟨receivedR, ledger.sent_lt q sent⟩
  · intro q other member
    rcases placedOf q other member with ⟨before, _⟩ | ⟨rfl, rfl⟩
    · exact ledger.matched q other before
    · exact answers
  · change ((s.placed ++ [(r, reply)]).map Prod.fst).Nodup
    rw [map_append, nodup_append]
    refine ⟨ledger.once, nodup_singleton _, ?_⟩
    rintro q member q' member' rfl
    obtain ⟨⟨q', other⟩, before, rfl⟩ := mem_map.mp member
    have equal : q' = r := mem_singleton.mp member'
    rw [equal] at before
    exact notPlaced other before
  · intro q other record bound
    change (update s.requests r pending q).reply = _ at record
    by_cases same : q = r
    · subst same
      rw [update_self, replyR] at record
      cases record
      exact mem_append_right _ (mem_singleton_self _)
    · rw [update_of_ne same] at record
      exact mem_append_left _ (ledger.recorded q other record bound)
  · change ((s.placed ++ [(r, reply)]).filterMap _ ++ s.freed).Nodup
    rw [buffersEq, perm.nodup_iff, nodup_append]
    refine ⟨?_, ledger.buffers, ?_⟩
    · cases reply.payload <;> simp
    rintro b member b' member' rfl
    have payload : reply.payload = some b := by simpa using member
    exact fresh b payload ((ledger.counted b).mp member')
  · intro b
    change b ∈ (s.placed ++ [(r, reply)]).filterMap _ ++ s.freed ↔ b < buffers
    rw [buffersEq, perm.mem_iff, mem_append, ledger.counted b, ← counted b]
    simp
  · intro b q member
    obtain ⟨other, before, payload⟩ := ledger.handed_placed b q member
    exact ⟨other, mem_append_left _ before, payload⟩
  · intro b q member leaving
    have leaving' : (s.pc (s.requests q).thread).request = some q := by
      rw [← threads q]
      exact leaving
    exact ledger.handed_left b q member leaving'
  · intro q other b member payload
    rcases placedOf q other member with ⟨before, apart⟩ | ⟨rfl, rfl⟩
    · unfold InFlight
      simp only [update_of_ne apart]
      exact ledger.flight q other b before payload
    refine Or.inr ⟨?_, ?_⟩
    · unfold InFlight
      simp only [update_self, threadR]
      refine ⟨alive, inside, ?_⟩
      rw [deadR]
      cases dead : (s.requests q).portDead with
      | false => rfl
      | true =>
        rw [ledger.dead q dead] at noReply
        cases noReply
    · simp only [update_self]
      exact replyR

theorem free {payload : Option Buffer} (fresh : ∀ b, payload = some b → ¬ b < s.nextBuffer)
    (counted : ∀ b, payload = some b ∨ b < s.nextBuffer ↔ b < buffers) :
    Ledger { s with freed := s.freed ++ payload.toList, nextBuffer := buffers } := by
  refine { ledger with buffers := ?_, counted := ?_ }
  · change (placedBuffers s ++ (s.freed ++ payload.toList)).Nodup
    rw [← append_assoc, nodup_append]
    refine ⟨ledger.buffers, ?_, ?_⟩
    · cases payload <;> simp
    rintro b member b' member' rfl
    have mine : payload = some b := by simpa using member'
    exact fresh b mine ((ledger.counted b).mp member)
  · intro b
    change b ∈ placedBuffers s ++ (s.freed ++ payload.toList) ↔ b < buffers
    rw [← append_assoc, mem_append, ledger.counted b, ← counted b, mem_toList, or_comm]

theorem ipcReplyStaged (base : Base s) {tid : Tid} {reply : Reply}
    (safe : s.slot tid = none ∨ ∃ r, reply.answers = some r ∧ tid < maxThreads ∧
      s.tidOf (s.requests r).thread = tid ∧ s.life (s.requests r).thread = .alive ∧
      (s.requests r).taken = true ∧ (s.requests r).replyReceived = false)
    (fresh : ∀ b, reply.payload = some b → ¬ b < s.nextBuffer)
    (counted : ∀ b, reply.payload = some b ∨ b < s.nextBuffer ↔ b < buffers) :
    Ledger (ipcReplyStaged { s with nextBuffer := buffers } t tid reply) := by
  unfold Channel.ipcReplyStaged
  split
  · have freed := ledger.free fresh counted
    exact { freed with }
  next q found =>
    rcases safe with vacant | ⟨r, answers, bound, number, alive, taken, noReply⟩
    · change (if tid < maxThreads then s.slot tid else none) = some q at found
      rw [vacant, ite_self] at found
      cases found
    -- the sender waits for this answer, so the slot is its own
    have waiting := ledger.stays r (Or.inl taken) noReply
    have slot := base.slot_set _ r (by rw [alive]; rfl) (Pc.published_of_waiting waiting)
    rw [number] at slot
    rw [if_pos bound, slot] at found
    cases found
    have placed := ledger.place base { s.requests q with
        reply := some reply
        replyReceived := true
        replyWait := (s.requests q).replyWait.tail }
      (Or.inl taken) alive noReply answers rfl rfl fresh counted
    exact { placed with }

theorem sysReply (base : Base s) {tid : Tid} {answers : Option Request}
    {payload : Bool} (safe : ReplySafe s (.call t (.reply tid answers payload))) :
    Ledger (sysReply s t tid answers payload) := by
  unfold Channel.sysReply
  split
  · refine ledger.ipcReplyStaged base safe ?_ ?_
    · rintro b mine
      cases mine
      exact lt_irrefl _
    · intro b
      rw [Option.some.injEq, Nat.lt_succ_iff_lt_or_eq, or_comm, eq_comm]
  · refine ledger.ipcReplyStaged base safe nofun ?_
    intro b
    exact ⟨fun either => either.resolve_left nofun, Or.inr⟩

theorem same_reply {q : Request} {reply other : Reply} {b : Buffer} (member : (r, reply) ∈ s.placed)
    (member' : (q, other) ∈ s.placed) (payload : reply.payload = some b)
    (payload' : other.payload = some b) : r = q ∧ reply = other := by
  have apart := pairwise_filterMap.mp (nodup_append.mp ledger.buffers).1
  have symm : Std.Symm (fun entry entry' : Request × Reply =>
      ∀ b, entry.2.payload = some b → ∀ b', entry'.2.payload = some b' → b ≠ b') :=
    ⟨fun _ _ differ b mine b' other => (differ b' other b mine).symm⟩
  by_contra differ
  have distinct : (r, reply) ≠ (q, other) := by
    intro equal
    exact differ (Prod.mk.inj equal)
  exact apart.forall member member' distinct b payload b payload' rfl

/-! ### Requests end -/

theorem leave (base : Base s) (here : s.pc t = .sendReturned r) (payload : Option Buffer)
    (known : ∀ b, payload = some b → ∃ reply, (r, reply) ∈ s.placed ∧ reply.payload = some b)
    (complete : ∀ reply, (s.requests r).portDead = false →
      (s.requests r).reply = some reply → reply.payload = payload) :
    Ledger ({ s with handed := s.handed ++ payload.toList.map (fun b => (b, r)) }.setPc t
      .user) := by
  have mine : (s.pc t).request = some r := by rw [here]; rfl
  have owner := (base.owner t r mine).1
  have extra : ∀ b q, (b, q) ∈ payload.toList.map (fun b => (b, r)) → payload = some b ∧ q = r := by
    intro b q member
    obtain ⟨_, inside, equal⟩ := mem_map.mp member
    cases equal
    exact ⟨mem_toList.mp inside, rfl⟩
  refine { ledger with
    stays := ?_, early := ?_, handed_once := ?_, handed_placed := ?_,
    handed_left := ?_, flight := ?_ }
  · intro q sent noReply
    have inside := ledger.stays q sent noReply
    exact waiting_kept here inside nofun
  · intro u q
    exact update_cases (motive := fun pc : Pc => pc.early = some q → _)
      nofun (fun _ => ledger.early u q)
  · change ((s.handed ++ payload.toList.map (fun b => (b, r))).map Prod.fst).Nodup
    rw [map_append, nodup_append]
    refine ⟨ledger.handed_once, ?_, ?_⟩
    · cases payload <;> simp
    rintro b member b' member' rfl
    obtain ⟨⟨b', q⟩, before, rfl⟩ := mem_map.mp member
    obtain ⟨⟨b, q'⟩, new, equal⟩ := mem_map.mp member'
    obtain ⟨delivered, _⟩ := extra b q' new
    obtain ⟨_, placed, carries⟩ := known b delivered
    obtain ⟨_, placed', carries'⟩ := ledger.handed_placed b' q before
    have same : b = b' := equal
    subst same
    obtain ⟨rfl, _⟩ := ledger.same_reply placed placed' carries carries'
    refine ledger.handed_left b r before ?_
    rw [owner]
    exact mine
  · intro b q member
    rcases mem_append.mp member with before | new
    · exact ledger.handed_placed b q before
    · obtain ⟨delivered, rfl⟩ := extra b q new
      exact known b delivered
  · intro b q member
    refine update_cases (motive := fun pc : Pc => pc.request ≠ some q) nofun ?_
    intro other
    rcases mem_append.mp member with before | new
    · exact ledger.handed_left b q before
    · rw [(extra b q new).2] at other
      exact absurd owner other
  · intro q reply b member carries
    rcases ledger.flight q reply b member carries with done | ⟨flying, record⟩
    · exact Or.inl (mem_append_left _ done)
    obtain ⟨alive, inside, dead⟩ := flying
    by_cases same : (s.requests q).thread = t
    · rw [same] at inside
      cases inside.symm.trans mine
      have delivered := complete reply dead record
      rw [carries] at delivered
      refine Or.inl (mem_append_right _ ?_)
      rw [← delivered]
      exact mem_singleton_self _
    · refine Or.inr ⟨⟨alive, ?_, dead⟩, record⟩
      change (update s.pc t _ (s.requests q).thread).request = _
      rw [update_of_ne same]
      exact inside

theorem settle (requests : Request → Pending)
    (same : ∀ r, (requests r).thread = (s.requests r).thread ∧
      (requests r).reply = (s.requests r).reply ∧ (requests r).taken = (s.requests r).taken)
    (ended : ∀ r, ((requests r).replyReceived = (s.requests r).replyReceived ∧
        (requests r).portDead = (s.requests r).portDead) ∨ ((requests r).replyReceived = true ∧
        ∀ reply b, (r, reply) ∈ s.placed → reply.payload = some b → (b, r) ∈ s.handed)) :
    Ledger { s with requests := requests } := by
  have sentOf : ∀ r, Sent { s with requests := requests } r → Sent s r := by
    rintro r (taken | queued)
    · exact Or.inl ((same r).2.2.symm.trans taken)
    · exact Or.inr queued
  refine { ledger with
    sent_lt := ?_, stays := ?_, dead := ?_, received := ?_, recorded := ?_,
    handed_left := ?_, flight := ?_ }
  · intro r sent
    exact ledger.sent_lt r (sentOf r sent)
  · intro r sent noReply
    have noReply' : (requests r).replyReceived = false := noReply
    rcases ended r with ⟨kept, _⟩ | ⟨received, _⟩
    · rw [kept] at noReply'
      rw [(same r).1]
      exact ledger.stays r (sentOf r sent) noReply'
    · rw [received] at noReply'
      cases noReply'
  · intro r dead
    have dead' : (requests r).portDead = true := dead
    rcases ended r with ⟨kept, keptDead⟩ | ⟨received, _⟩
    · rw [keptDead] at dead'
      rw [kept]
      exact ledger.dead r dead'
    · exact received
  · intro r reply member
    obtain ⟨received, bound⟩ := ledger.received r reply member
    refine ⟨?_, bound⟩
    rcases ended r with ⟨kept, _⟩ | ⟨received, _⟩
    · rw [kept]
      exact received
    · exact received
  · intro r reply record bound
    exact ledger.recorded r reply ((same r).2.1.symm.trans record) bound
  · intro b r member
    rw [(same r).1]
    exact ledger.handed_left b r member
  · intro r reply b member payload
    rcases ended r with ⟨_, kept⟩ | ⟨_, done⟩
    · rcases ledger.flight r reply b member payload with done | ⟨flying, record⟩
      · exact Or.inl done
      obtain ⟨alive, inside, dead⟩ := flying
      refine Or.inr ⟨⟨?_, ?_, kept.trans dead⟩, (same r).2.1.trans record⟩
      · change s.life (requests r).thread = .alive
        rw [(same r).1]
        exact alive
      · change (s.pc (requests r).thread).request = some r
        rw [(same r).1]
        exact inside
    · exact Or.inl (done reply b member payload)

theorem destroyMark {p : PortRef}
    (here : s.pc t = .destroyMark p) : Ledger (destroyMark s t p) := by
  have marked := ledger.settle (fun r =>
    if r ∈ markBatch s p then
      { s.requests r with portDead := true, replyReceived := true }
    else s.requests r) ?_ ?_
  · have unlinked := marked.brush ((Brush.refl _).setPort p { s.ports p with
        pendingSenders := (s.ports p).pendingSenders.filter (fun r => r ∉ markBatch s p) }
      (fun _ member => (mem_filter.mp member).1) (fun _ => .inl))
    refine unlinked.move here (Or.inl rfl) ?_ (Or.inl ?_)
    · split <;> rfl
    · split <;> rfl
  · intro r
    split <;> exact ⟨rfl, rfl, rfl⟩
  · intro r
    split
    · next chosen =>
        -- a pass marks only records that have no reply
        have noReply := (mem_filter.mp (mem_of_mem_take chosen)).2
        refine Or.inr ⟨rfl, ?_⟩
        intro reply b member _
        rw [(ledger.received r reply member).1] at noReply
        cases noReply
    · exact Or.inl ⟨rfl, rfl⟩

/-! ### Threads are born and die -/

theorem setLife (life : Life) (safe : life = .alive ∨ (s.life t = .alive → ∀ r reply,
      (s.pc t).request = some r → (s.requests r).reply = some reply →
      reply.payload = none)) : Ledger (s.setLife t life) := by
  refine ledger.frame (fun _ => rfl) rfl ⟨rfl, rfl, rfl, rfl⟩ (fun _ sent => sent)
    ?_ (fun _ _ inside _ => inside) (fun _ _ inside => Or.inl inside)
    (fun _ _ inside => inside) (fun _ _ inside => inside)
  intro u r inside alive carried
  refine update_cases (motive := fun life : Life => life = .alive) ?_ (fun _ => alive)
  rintro rfl
  obtain ⟨reply, _, record, payload⟩ := carried
  rcases safe with living | none'
  · exact living
  · rw [none' alive r reply inside record] at payload
    cases payload

theorem bury {life : Life} (dead : s.life t ≠ .alive) : Ledger (s.setLife t life) :=
  ledger.setLife life (Or.inr (fun alive => absurd alive dead))

theorem cleanup (base : Base s) (dead : s.life t = .dead) : Ledger (ipcCleanupThread s t) := by
  have notAlive : s.life t ≠ .alive := by simp [dead]
  unfold ipcCleanupThread
  split
  · exact ledger.bury notAlive
  next r set =>
    have mine := base.slot_mine dead set
    have settled : Ledger ((s.setSlot (s.tidOf t) none).setRequest r
        { s.requests r with portDead := true, replyReceived := true }) := by
      refine (ledger.setSlot (s.tidOf t) none).settle _ ?_ ?_
      · intro q
        exact update_cases (motive := fun row : Pending =>
          row.thread = (s.requests q).thread ∧ row.reply = (s.requests q).reply ∧
            row.taken = (s.requests q).taken)
          (by rintro rfl; exact ⟨rfl, rfl, rfl⟩) (fun _ => ⟨rfl, rfl, rfl⟩)
      intro q
      refine update_cases (motive := fun row : Pending =>
        (row.replyReceived = (s.requests q).replyReceived ∧
          row.portDead = (s.requests q).portDead) ∨
        (row.replyReceived = true ∧ ∀ reply b, (q, reply) ∈ s.placed →
          reply.payload = some b → (b, q) ∈ s.handed)) ?_
        (fun _ => Or.inl ⟨rfl, rfl⟩)
      rintro rfl
      refine Or.inr ⟨rfl, ?_⟩
      intro reply b member payload
      rcases ledger.flight q reply b member payload with done | ⟨flying, _⟩
      · exact done
      have alive := flying.1
      rw [mine] at alive
      exact absurd alive notAlive
    dsimp only
    split
    · exact settled.bury notAlive
    · next p _ => exact (settled.brush (.takeRef (.refl _) p)).bury notAlive

theorem spawn (tid : Tid) (pid : Nat) : Ledger (spawn s tid pid) := by
  have born := ledger.setLife (t := s.nextThread) .alive (Or.inl rfl)
  exact { born with }

/-! ### The steps -/

theorem turn (base : Base s) {flag : Bool} (turn : Turn s t flag s') : Ledger s' := by
  cases turn with
  | walk here lane =>
    refine (ledger.brush lane.brush).move ((congrFun lane.brush.pc t).trans here) ?_ ?_ ?_
    all_goals
      cases lane with
      | quiet way =>
        cases way <;> first | rfl | exact Or.inl rfl | exact Or.inr rfl
      | _ => first | rfl | exact Or.inl rfl | exact Or.inr rfl
  | pass here leaves received =>
    -- past the wait loop a sender has its reply or its mark
    have left := ledger.brush leaves.brush
    refine left.setPc ((congrFun leaves.brush.pc t).trans here) ?_ (Or.inl ?_) (Or.inl rfl)
    · intro q inside noReply
      have record := leaves.brush.records q
      cases leaves
      all_goals
        cases inside
        rw [record] at noReply
        cases received.symm.trans noReply
    · cases leaves <;> rfl
  | newRequest here pending _ fresh =>
    exact ledger.newRequest here pending ⟨fresh.1, fresh.2.1, fresh.2.2.1⟩
  | publish here => exact (ledger.setSlot _ _).move here (Or.inl rfl) rfl (Or.inr rfl)
  | enqueue here _ _ port sent queue =>
    refine ledger.enqueue base port here ?_
    intro other member
    rw [queue] at member
    rcases mem_append.mp member with before | new
    · exact Or.inl before
    · rw [mem_singleton.mp new]
      exact Or.inr sent.1
  | refuse here =>
    -- the queue was full, so nobody has seen the request
    exact (ledger.setSlot _ _).setPc here nofun (Or.inr ⟨rfl, rfl⟩) (Or.inl rfl)
  | retract here => exact (ledger.setSlot _ _).move here (Or.inl rfl) rfl (Or.inl rfl)
  | @deliver r here payload result books =>
    have left := ledger.leave base here payload ?_ ?_
    · exact { left with }
    · intro b delivered
      rcases books with ⟨_, rfl⟩ | ⟨_, rfl⟩
      · cases delivered
      obtain ⟨reply, record, carries⟩ := bind_eq_some_iff.mp delivered
      have bound := (base.owner t r (by rw [here]; rfl)).2
      exact ⟨reply, ledger.recorded r reply record bound, carries⟩
    · intro reply alive record
      rcases books with ⟨dead, _⟩ | ⟨_, rfl⟩
      · cases alive.symm.trans dead
      · rw [record]
        rfl
  | mark here => exact ledger.destroyMark here

end

end Ledger

/-! ### Whole runs -/

theorem ledger_step (s : State) (label : Label) (s' : State) (inv : Base s ∧ Ledger s)
    (taken : Lib.Guarded Step ReplySafe s label s') : Base s' ∧ Ledger s' := by
  obtain ⟨taken, safe⟩ := taken
  obtain ⟨base, ledger⟩ := inv
  refine ⟨base_step s label s' base taken, ?_⟩
  cases stride_of_step taken with
  | run _ _ turn => exact ledger.turn base turn
  | missing _ touch => exact ledger.brush touch.toBrush
  | found _ here _ door =>
    refine (ledger.brush (.takeRef (.refl s) _)).move here (Or.inl rfl) ?_ (Or.inl ?_)
    all_goals cases door <;> rfl
  | @create t id =>
    have fresh := ledger.brush ((Brush.refl s).setPort s.nextPort
      ⟨id, s.pidOf t, .active, (s.generation id + 1) % 2 ^ 32, 1, [], 0, [], []⟩ nofun nofun)
    exact { fresh with }
  | reply => exact ledger.sysReply base safe
  | destroy _ here => exact (ledger.brush (.close ..)).move here (Or.inl rfl) rfl (Or.inl rfl)
  | unblock => exact { ledger with }
  | spawn => exact ledger.spawn _ _
  | kill _ brush => exact (ledger.setLife .dead (Or.inr fun _ => safe)).brush brush
  | cleanup dead => exact ledger.cleanup base dead
  | bury unlinking brush => exact (ledger.bury (by simp [unlinking])).brush brush
  | @reap t cleaned =>
    have reaped : Ledger (s.setLife t .reaped) := ledger.bury (by simp [cleaned])
    exact { reaped with }

/-- How often a buffer was handed to a sender. -/
def timesHanded (s : State) (b : Buffer) : Nat := (s.handed.map Prod.fst).count b

/-- How often a buffer was freed because nobody waited for it. -/
def timesFreed (s : State) (b : Buffer) : Nat := s.freed.count b

/-- Replies reach the request they answer, once, and their buffers are handed
to its sender once or freed once; until one or the other has happened, the
buffer is on its way to that sender. -/
structure ReplyContract (s : State) : Prop where
  answers : ∀ r reply, (r, reply) ∈ s.placed → reply.answers = some r
  at_most_one : (s.placed.map Prod.fst).Nodup
  delivered : ∀ b r, (b, r) ∈ s.handed → ∃ reply, (r, reply) ∈ s.placed ∧ reply.payload = some b
  settled : ∀ b < s.nextBuffer, (timesHanded s b = 1 ∧ timesFreed s b = 0) ∨
    (timesHanded s b = 0 ∧ timesFreed s b = 1) ∨ (timesHanded s b = 0 ∧ timesFreed s b = 0 ∧
    ∃ r reply, InFlight s r ∧ (s.requests r).reply = some reply ∧ reply.payload = some b)

theorem Ledger.contract {s : State} (ledger : Ledger s) : ReplyContract s := by
  refine ⟨ledger.matched, ledger.once, ledger.handed_placed, ?_⟩
  intro b bound
  obtain ⟨_, freedOnce, apart⟩ := nodup_append.mp ledger.buffers
  rcases mem_append.mp ((ledger.counted b).mpr bound) with placed | freed
  · have notFreed : b ∉ s.freed := fun freed => apart b placed b freed rfl
    obtain ⟨⟨r, reply⟩, member, payload⟩ := mem_filterMap.mp placed
    by_cases handed : b ∈ s.handed.map Prod.fst
    · exact Or.inl ⟨count_eq_one_of_mem ledger.handed_once handed,
        count_eq_zero_of_not_mem notFreed⟩
    refine Or.inr (Or.inr ⟨count_eq_zero_of_not_mem handed,
      count_eq_zero_of_not_mem notFreed, r, reply, ?_⟩)
    rcases ledger.flight r reply b member payload with done | ⟨flying, record⟩
    · exact absurd (mem_map_of_mem done) handed
    · exact ⟨flying, record, payload⟩
  · refine Or.inr (Or.inl ⟨count_eq_zero_of_not_mem ?_, count_eq_one_of_mem freedOnce freed⟩)
    intro handed
    obtain ⟨⟨b', r⟩, member, rfl⟩ := mem_map.mp handed
    obtain ⟨_, placed, payload⟩ := ledger.handed_placed b' r member
    exact apart b' (mem_filterMap.mpr ⟨_, placed, payload⟩) b' freed rfl

/-- In every run of well-behaved servers and killers replies and requests
match. -/
theorem replies_match {labels : List Label} {s : State}
    (run : Lib.Steps (Lib.Guarded Step ReplySafe) initial labels s) : ReplyContract s :=
  (run.invariant ledger_step ⟨base_initial, ledger_initial⟩).2.contract

/-- An executable test that implies `ReplySafe`. -/
def replyCheck (s : State) : Label → Bool
  | .call _ (.reply tid (some r) _) =>
    decide (tid < maxThreads) &&
      decide (s.tidOf (s.requests r).thread = tid) &&
      decide (s.life (s.requests r).thread = .alive) &&
      (s.requests r).taken && !(s.requests r).replyReceived
  | .call _ (.reply tid none _) => (s.slot tid).isNone
  | .kill _ => false
  | _ => true

theorem replySafe_of_check (s : State) (label : Label)
    (checked : replyCheck s label = true) : ReplySafe s label := by
  cases label with
  | kill => cases checked
  | call _ call =>
    cases call with
    | reply _ answers =>
      cases answers with
      | none => exact Or.inl (isNone_iff_eq_none.mp checked)
      | some r =>
        simp only [replyCheck, Bool.and_eq_true, decide_eq_true_eq, Bool.not_eq_true'] at checked
        obtain ⟨⟨⟨⟨bound, number⟩, alive⟩, taken⟩, noReply⟩ := checked
        exact Or.inr ⟨r, rfl, bound, number, alive, taken, noReply⟩
    | _ => trivial
  | _ => trivial

/-- A client sends to port 5 and goes to sleep; the server takes the message. -/
def takenRun : List Label :=
  [.spawn 1 10, .spawn 2 20, .call 1 (.create 5), .call 0 (.send 5 16),
    .run 0 true, .run 0 true, .run 0 true, .run 0 true, .run 0 true, .run 0 true,
    .run 0 true, .call 1 (.receive 5 true), .run 1 true, .run 1 true]

/-- The server answers with a payload, and the client returns with it. -/
def answeredRun : List Label :=
  takenRun ++ [.call 1 (.reply 1 (some 0) true), .unblock 1, .run 0 true,
    .run 0 true, .run 0 true, .run 0 true, .run 0 true, .run 0 true]

/-- The state that run ends in. -/
def answeredState : State := (execAll initial answeredRun).getD initial

/-- One reply was placed, and its buffer handed to the client. -/
theorem replies_match_answered : answeredState.pc 0 = .user ∧
    answeredState.handed = [(0, 0)] ∧ ReplyContract answeredState := by
  have run : Lib.Steps (Lib.Guarded Step ReplySafe) initial answeredRun
      answeredState := steps_of_execChecked replySafe_of_check rfl
  exact ⟨rfl, rfl, replies_match run⟩

/-- The server answers twice before the client gets to run. -/
def answeredTwiceRun : List Label :=
  takenRun ++ [.call 1 (.reply 1 (some 0) true), .unblock 1, .call 1 (.reply 1 (some 0) true),
    .run 0 true, .run 0 true, .run 0 true, .run 0 true, .run 0 true, .run 0 true]

/-- The state that run ends in. -/
def answeredTwiceState : State :=
  (execAll initial answeredTwiceRun).getD initial

/-- Without the side conditions the property fails: the second reply overwrites
the first, whose buffer is neither handed over nor freed. -/
theorem second_reply_overwrites :
    Lib.Steps Step initial answeredTwiceRun answeredTwiceState ∧ answeredTwiceState.pc 0 = .user ∧
      0 < answeredTwiceState.nextBuffer ∧ timesHanded answeredTwiceState 0 = 0 ∧
      timesFreed answeredTwiceState 0 = 0 ∧ ¬ ReplyContract answeredTwiceState := by
  refine ⟨steps_of_execAll rfl, rfl, by decide, rfl, rfl, ?_⟩
  intro contract
  have once : [0, 0].Nodup := contract.at_most_one
  exact absurd once (by decide)

end MainDob.Kernel.Channel
