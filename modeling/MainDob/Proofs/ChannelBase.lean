/-
Purpose: What every interleaving of IPC steps keeps about requests and slots: a thread is in at
  most one send and owns its record, and the slot of a thread number holds exactly the published
  send of the thread that has the number.
Main exports: Pc.request, Pc.waiting, Pc.published
-/
import MainDob.Proofs.ChannelTurns

namespace MainDob.Kernel.Channel

open Function (update update_of_ne update_self)

/-! ### What a program counter says -/

/-- The send a thread is in. -/
def Pc.request : Pc → Option Request
  | .sendReady r | .sendPublished r | .sendRefused r | .sendQueued r
  | .sendExtracted r _ | .sendHandoff r _ | .sendTest r | .sendPrepare r
  | .sendPrepared r | .sendAsleep r | .sendLeaving r | .sendUnlinking r
  | .sendPut r | .sendReturned r => some r
  | _ => none

/-- The send whose message is queued and whose reply is awaited. -/
def Pc.waiting : Pc → Option Request
  | .sendQueued r | .sendExtracted r _ | .sendHandoff r _ | .sendTest r
  | .sendPrepare r | .sendPrepared r | .sendAsleep r => some r
  | _ => none

/-- The send whose record the slot of the thread points to. -/
def Pc.published : Pc → Option Request
  | .sendPublished r | .sendRefused r | .sendQueued r | .sendExtracted r _
  | .sendHandoff r _ | .sendTest r | .sendPrepare r | .sendPrepared r
  | .sendAsleep r | .sendLeaving r => some r
  | _ => none

/-- The port a send has found before it has a record. -/
def Pc.found : Pc → Option PortRef
  | .sendGot p _ => some p
  | _ => none

variable {pc : Pc} {r : Request}

theorem Pc.published_of_waiting (waiting : pc.waiting = some r) : pc.published = some r := by
  cases pc <;> first | exact waiting | cases waiting

theorem Pc.request_of_published (published : pc.published = some r) : pc.request = some r := by
  cases pc <;> first | exact published | cases published

/-- Two points of the same send, as far as its record and its slot go. -/
def Pc.Alike (old new : Pc) : Prop :=
  (new.request = old.request ∨ new.request = none) ∧
    new.published = old.published ∧ new.found = none

/-! ### Requests, slots and their owners -/

/-- The thread still has its number and its kernel stack in use. -/
def Life.holdsSlot : Life → Bool
  | .alive | .dead => true
  | _ => false

/-- What holds of requests and slots in every reachable state. -/
structure Base (s : State) : Prop where
  owner : ∀ t r, (s.pc t).request = some r → (s.requests r).thread = t ∧ r < s.nextRequest
  port_lt : ∀ r < s.nextRequest, (s.requests r).port < s.nextPort
  table_lt : ∀ id p, s.table id = some p → p < s.nextPort
  found_lt : ∀ t p, (s.pc t).found = some p → p < s.nextPort
  number : ∀ t, s.life t ≠ .reaped → s.tidOwner (s.tidOf t) = some t
  unborn : ∀ t, s.nextThread ≤ t → s.life t = .reaped ∧ s.pc t = .user
  slot_owner : ∀ tid r, s.slot tid = some r → s.tidOf (s.requests r).thread = tid ∧ (s.life
      (s.requests r).thread).holdsSlot = true ∧ (s.pc (s.requests r).thread).published = some r
  slot_set : ∀ t r, (s.life t).holdsSlot = true →
    (s.pc t).published = some r → s.slot (s.tidOf t) = some r

theorem waiting_kept {rows : Nat → Pc} {t u : Nat} {old new : Pc} (here : rows t = old)
    (inside : (rows u).waiting = some r) (kept : old.waiting = some r → new.waiting = some r) :
    (update rows t new u).waiting = some r := by
  refine update_cases (motive := fun pc : Pc => pc.waiting = some r) ?_ (fun _ => inside)
  rintro rfl
  rw [here] at inside
  exact kept inside

theorem base_initial : Base initial where
  owner := by simp [initial, Pc.request]
  port_lt := by simp [initial]
  table_lt := by simp [initial]
  found_lt := by simp [initial, Pc.found]
  number := by simp [initial]
  unborn := by simp [initial]
  slot_owner := by simp [initial]
  slot_set := by simp [initial, Life.holdsSlot]

/-- The part of a record that says whose it is. -/
def Pending.home (pending : Pending) : Thread × PortRef :=
  (pending.thread, pending.port)

theorem Life.holdsSlot_ne_reaped {life : Life} (holds : life.holdsSlot = true) :
    life ≠ .reaped := by
  rintro rfl
  cases holds

variable {p : PortRef}

namespace Base

open Function (update update_of_ne update_self update_eq_self)

variable {s : State}

theorem same_thread (base : Base s) {u v : Thread} (mine : (s.pc u).request = some r)
    (yours : (s.pc v).request = some r) : u = v :=
  (base.owner u r mine).1.symm.trans (base.owner v r yours).1

theorem same_number (base : Base s) {u v : Thread} (mine : s.life u ≠ .reaped)
    (yours : s.life v ≠ .reaped) (same : s.tidOf u = s.tidOf v) : u = v := by
  have owned := base.number u mine
  rw [same, base.number v yours] at owned
  exact (Option.some.inj owned).symm

variable {t : Thread}

section

variable (base : Base s)
include base

/-- A new record leaves the records of the calls under way as they are. -/
theorem record_kept (pending : Pending) {u : Thread} {r : Request}
    (inside : (s.pc u).request = some r) :
    update s.requests s.nextRequest pending r = s.requests r :=
  update_of_ne (ne_of_lt (base.owner u r inside).2) ..

/-- The record in the slot of a dead thread is of that thread. -/
theorem slot_mine {r : Request} (dead : s.life t = .dead) (set : s.slot (s.tidOf t) = some r) :
    (s.requests r).thread = t := by
  obtain ⟨number, holds, _⟩ := base.slot_owner _ r set
  exact base.same_number (Life.holdsSlot_ne_reaped holds) (by simp [dead]) number

theorem born (alive : s.life t = .alive) : t < s.nextThread := by
  rcases lt_or_ge t s.nextThread with less | more
  · exact less
  · rw [(base.unborn t more).1] at alive
    cases alive

theorem unborn_update (alive : s.life t = .alive) (u : Thread)
    (unborn : s.nextThread ≤ u) : s.life u = .reaped ∧ update s.pc t pc u = .user := by
  have other : u ≠ t := ne_of_gt (lt_of_lt_of_le (base.born alive) unborn)
  rw [update_of_ne other]
  exact base.unborn u unborn

theorem slot_owner_other {tid : Tid} (other : tid ≠ s.tidOf t) (set : s.slot tid = some r) :
    s.tidOf (s.requests r).thread = tid ∧ (s.life (s.requests r).thread).holdsSlot = true ∧
      (update s.pc t pc (s.requests r).thread).published = some r := by
  obtain ⟨number, holds, inside⟩ := base.slot_owner tid r set
  have apart : (s.requests r).thread ≠ t := by
    intro same
    exact other (number.symm.trans (congrArg s.tidOf same))
  rw [update_of_ne apart]
  exact ⟨number, holds, inside⟩

/-! ### Updates -/

theorem owner_update (kept : pc.request = (s.pc t).request ∨ pc.request = none) (u : Thread)
    (q : Request) :
    (update s.pc t pc u).request = some q → (s.requests q).thread = u ∧ q < s.nextRequest := by
  refine update_cases (motive := fun pc : Pc => pc.request = some q → _) ?_
    (fun _ => base.owner u q)
  rintro rfl inside
  rcases kept with same | gone
  · exact base.owner u q (same.symm.trans inside)
  · rw [gone] at inside
    cases inside

theorem setPc (alive : s.life t = .alive) (kept : pc.request = (s.pc t).request ∨ pc.request = none)
    (published : pc.published = (s.pc t).published)
    (found : ∀ p, pc.found = some p → p < s.nextPort) : Base (s.setPc t pc) := by
  have publishedOf := update_view Pc.published published
  refine ⟨base.owner_update kept, base.port_lt, base.table_lt, ?_, base.number, ?_, ?_, ?_⟩
  · intro u p
    exact update_cases (motive := fun pc : Pc => pc.found = some p → _)
      (fun _ => found p) (fun _ => base.found_lt u p)
  · exact base.unborn_update alive
  · intro tid r set
    obtain ⟨number, holds, inside⟩ := base.slot_owner tid r set
    exact ⟨number, holds, (publishedOf _).trans inside⟩
  · intro u r holds inside
    exact base.slot_set u r holds ((publishedOf u).symm.trans inside)

theorem move {old : Pc} (alive : s.life t = .alive) (here : s.pc t = old)
    (alike : old.Alike pc) : Base (s.setPc t pc) := by
  subst here
  refine base.setPc alive alike.1 alike.2.1 ?_
  intro p found
  rw [alike.2.2] at found
  cases found

theorem setRequests (requests : Request → Pending)
    (homes : ∀ r, (requests r).home = (s.requests r).home) :
    Base { s with requests := requests } := by
  have threads : ∀ r, (requests r).thread = (s.requests r).thread :=
    fun r => congrArg Prod.fst (homes r)
  have ports : ∀ r, (requests r).port = (s.requests r).port := fun r => congrArg Prod.snd (homes r)
  refine ⟨?_, ?_, base.table_lt, base.found_lt, base.number, base.unborn, ?_, base.slot_set⟩
  · intro u r inside
    obtain ⟨mine, bound⟩ := base.owner u r inside
    exact ⟨(threads r).trans mine, bound⟩
  · intro r bound
    exact lt_of_eq_of_lt (ports r) (base.port_lt r bound)
  · intro tid r set
    simp only [threads]
    exact base.slot_owner tid r set

theorem setPort (p : PortRef) (port : PortRec) : Base (s.setPort p port) := { base with }

theorem brush {m : State} (brush : Brush s m) : Base m := by
  have homes : ∀ r, (m.requests r).home = (s.requests r).home :=
    fun r => (congrArg Pending.home (brush.records r) :)
  rw [brush.rest]
  exact { base.setRequests m.requests homes with
    table_lt := fun id p listed => base.table_lt id p (brush.table id p listed) }

theorem other_number {u : Thread} (alive : s.life t = .alive)
    (holds : (s.life u).holdsSlot = true) (other : u ≠ t) : s.tidOf u ≠ s.tidOf t := by
  intro same
  have unreaped : s.life t ≠ .reaped := by simp [alive]
  exact other (base.same_number (Life.holdsSlot_ne_reaped holds) unreaped same)

theorem publish (alive : s.life t = .alive) (here : s.pc t = .sendReady r) :
    Base ((s.setSlot (s.tidOf t) (some r)).setPc t (.sendPublished r)) := by
  have mine := base.owner t r (by rw [here]; rfl)
  refine ⟨base.owner_update (.inl (by rw [here]; rfl)), base.port_lt, base.table_lt, ?_,
    base.number, ?_, ?_, ?_⟩
  · intro u p
    exact update_cases (motive := fun pc : Pc => pc.found = some p → _)
      nofun (fun _ => base.found_lt u p)
  · exact base.unborn_update alive
  · intro tid q
    refine update_cases (motive := fun slot => slot = some q → _) ?_ ?_
    · rintro rfl set
      cases set
      change s.tidOf (s.requests r).thread = _ ∧ (s.life (s.requests r).thread).holdsSlot = _ ∧
        (update s.pc t _ (s.requests r).thread).published = _
      rw [mine.1, update_self, alive]
      exact ⟨rfl, rfl, rfl⟩
    · intro other set
      exact base.slot_owner_other other set
  · intro u q holds
    refine update_cases (motive := fun pc : Pc => pc.published = some q → _) ?_ ?_
    · rintro rfl inside
      cases inside
      exact update_self ..
    · intro other inside
      have apart := base.other_number alive holds other
      exact (update_of_ne apart ..).trans (base.slot_set u q holds inside)

theorem retract (alive : s.life t = .alive)
    (kept : pc.request = (s.pc t).request ∨ pc.request = none) (unpublished : pc.published = none)
    (notFound : pc.found = none) : Base ((s.setSlot (s.tidOf t) none).setPc t pc) := by
  refine ⟨base.owner_update kept, base.port_lt, base.table_lt, ?_, base.number, ?_, ?_, ?_⟩
  · intro u p
    refine update_cases (motive := fun pc : Pc => pc.found = some p → _) ?_
      (fun _ => base.found_lt u p)
    intro _ inside
    rw [notFound] at inside
    cases inside
  · exact base.unborn_update alive
  · intro tid q
    refine update_cases (motive := fun slot => slot = some q → _) nofun ?_
    intro other set
    exact base.slot_owner_other other set
  · intro u q holds
    refine update_cases (motive := fun pc : Pc => pc.published = some q → _) ?_ ?_
    · rintro rfl inside
      rw [unpublished] at inside
      cases inside
    · intro other inside
      have apart := base.other_number alive holds other
      exact (update_of_ne apart ..).trans (base.slot_set u q holds inside)

end

variable {size : Nat}

section

variable (base : Base s)
include base

theorem newRequest (alive : s.life t = .alive) (here : s.pc t = .sendGot p size)
    (pending : Pending) (home : pending.home = (t, p)) :
    Base { s with
      requests := update s.requests s.nextRequest pending
      nextRequest := s.nextRequest + 1
      pc := update s.pc t (.sendReady s.nextRequest) } := by
  have old : ∀ r < s.nextRequest, update s.requests s.nextRequest pending r = s.requests r :=
    fun r bound => update_of_ne (ne_of_lt bound) ..
  have threadNew : pending.thread = t := congrArg Prod.fst home
  have portNew : pending.port = p := congrArg Prod.snd home
  refine ⟨?_, ?_, base.table_lt, ?_, base.number, ?_, ?_, ?_⟩
  · intro u q
    refine update_cases (motive := fun pc : Pc => pc.request = some q → _) ?_ ?_
    · rintro rfl inside
      cases inside
      refine ⟨?_, Nat.lt_succ_self _⟩
      exact (congrArg Pending.thread (update_self ..)).trans threadNew
    · intro _ inside
      obtain ⟨mine, bound⟩ := base.owner u q inside
      refine ⟨?_, Nat.lt_succ_of_lt bound⟩
      exact (congrArg Pending.thread (old q bound)).trans mine
  · intro q bound
    refine update_cases (motive := fun row : Pending => row.port < _) ?_ ?_
    · intro _
      rw [portNew]
      exact base.found_lt t p (by rw [here]; rfl)
    · intro other
      exact base.port_lt q (Nat.lt_of_le_of_ne (Nat.lt_succ_iff.mp bound) other)
  · intro u q
    exact update_cases (motive := fun pc : Pc => pc.found = some q → _)
      nofun (fun _ => base.found_lt u q)
  · exact base.unborn_update alive
  · intro tid q set
    obtain ⟨number, holds, inside⟩ := base.slot_owner tid q set
    have bound := (base.owner _ q (Pc.request_of_published inside)).2
    have apart : (s.requests q).thread ≠ t := by
      intro same
      rw [same, here] at inside
      cases inside
    simp only [old q bound]
    refine ⟨number, holds, ?_⟩
    exact (congrArg Pc.published (update_of_ne apart ..)).trans inside
  · intro u q holds
    exact update_cases (motive := fun pc : Pc => pc.published = some q → _)
      nofun (fun _ => base.slot_set u q holds)

/-! ### Births and deaths -/

theorem number_update {life : Life} (unreaped : s.life t ≠ .reaped) (u : Thread) :
    update s.life t life u ≠ .reaped → s.tidOwner (s.tidOf u) = some u :=
  update_cases (motive := fun life : Life => life ≠ .reaped → _)
    (fun here _ => by rw [here]; exact base.number t unreaped) (fun _ => base.number u)

theorem unborn_life {life : Life} (unreaped : s.life t ≠ .reaped) (u : Thread)
    (unborn : s.nextThread ≤ u) : update s.life t life u = .reaped ∧ s.pc u = .user := by
  refine ⟨update_cases (motive := fun life : Life => life = .reaped) ?_
    (fun _ => (base.unborn u unborn).1), (base.unborn u unborn).2⟩
  rintro rfl
  exact absurd (base.unborn u unborn).1 unreaped

theorem setLife {life : Life} (unreaped : s.life t ≠ .reaped)
    (same : life.holdsSlot = (s.life t).holdsSlot) : Base (s.setLife t life) := by
  have holdsOf := update_view Life.holdsSlot same
  refine ⟨base.owner, base.port_lt, base.table_lt, base.found_lt, base.number_update unreaped,
    base.unborn_life unreaped, ?_, ?_⟩
  · intro tid r set
    obtain ⟨number, holds, inside⟩ := base.slot_owner tid r set
    exact ⟨number, (holdsOf _).trans holds, inside⟩
  · intro u r holds inside
    exact base.slot_set u r ((holdsOf u).symm.trans holds) inside

theorem bury (life : Life) (dead : s.life t = .dead) (gone : life.holdsSlot = false)
    : Base ((s.setSlot (s.tidOf t) none).setLife t life) := by
  have unreaped : s.life t ≠ .reaped := by simp [dead]
  refine ⟨base.owner, base.port_lt, base.table_lt, base.found_lt, base.number_update unreaped,
    base.unborn_life unreaped, ?_, ?_⟩
  · intro tid r
    refine update_cases (motive := fun slot => slot = some r → _) nofun ?_
    intro other set
    obtain ⟨number, holds, inside⟩ := base.slot_owner tid r set
    have apart : (s.requests r).thread ≠ t := by
      intro same
      exact other (number.symm.trans (congrArg s.tidOf same))
    refine ⟨number, ?_, inside⟩
    exact (congrArg Life.holdsSlot (update_of_ne apart ..)).trans holds
  · intro u r
    refine update_cases (motive := fun life : Life => life.holdsSlot = true → _) ?_ ?_
    · intro _ holds
      rw [gone] at holds
      cases holds
    · intro other holds inside
      have apart : s.tidOf u ≠ s.tidOf t := fun same => other
        (base.same_number (Life.holdsSlot_ne_reaped holds) unreaped same)
      exact (update_of_ne apart ..).trans (base.slot_set u r holds inside)

theorem reapDetach (cleaned : s.life t = .cleaned) : Base (reapDetach s t) := by
  have unreaped : s.life t ≠ .reaped := by simp [cleaned]
  refine ⟨base.owner, base.port_lt, base.table_lt, base.found_lt, ?_, ?_, ?_, ?_⟩
  · intro u
    refine update_cases (motive := fun life : Life => life ≠ .reaped → _)
      (fun _ reaped => absurd rfl reaped) ?_
    intro other living
    have apart : s.tidOf u ≠ s.tidOf t := fun same => other (base.same_number living unreaped same)
    exact (update_of_ne apart ..).trans (base.number u living)
  · intro u unborn
    refine ⟨?_, (base.unborn u unborn).2⟩
    exact update_cases (motive := fun life : Life => life = .reaped)
      (fun _ => rfl) (fun _ => (base.unborn u unborn).1)
  · intro tid r set
    obtain ⟨number, holds, inside⟩ := base.slot_owner tid r set
    have apart : (s.requests r).thread ≠ t := by
      intro same
      rw [same, cleaned] at holds
      cases holds
    refine ⟨number, ?_, inside⟩
    exact (congrArg Life.holdsSlot (update_of_ne apart ..)).trans holds
  · intro u r
    exact update_cases (motive := fun life : Life => life.holdsSlot = true → _)
      nofun (fun _ => base.slot_set u r)

theorem spawn {tid : Tid} {pid : Nat} (free : s.tidOwner tid = none) : Base (spawn s tid pid) := by
  obtain ⟨unbornLife, unbornPc⟩ := base.unborn s.nextThread (le_refl _)
  have tidNew : update s.tidOf s.nextThread tid s.nextThread = tid := update_self ..
  refine ⟨base.owner, base.port_lt, base.table_lt, base.found_lt, ?_, ?_, ?_, ?_⟩
  · intro u living
    change update s.tidOwner tid (some s.nextThread) (update s.tidOf s.nextThread tid u) = some u
    by_cases here : u = s.nextThread
    · rw [here, tidNew, update_self]
    have old : s.life u ≠ .reaped := by
      intro reaped
      exact living ((update_of_ne here ..).trans reaped)
    have owned := base.number u old
    rw [update_of_ne here]
    refine (update_of_ne ?_ ..).trans owned
    intro same
    rw [same, free] at owned
    cases owned
  · intro u unborn
    have later : s.nextThread < u := unborn
    have before := base.unborn u (le_of_lt later)
    exact ⟨(update_of_ne (ne_of_gt later) ..).trans before.1, before.2⟩
  · intro tid' r set
    obtain ⟨number, holds, inside⟩ := base.slot_owner tid' r set
    have apart : (s.requests r).thread ≠ s.nextThread := by
      intro same
      rw [same, unbornLife] at holds
      cases holds
    exact ⟨(update_of_ne apart ..).trans number,
      (congrArg Life.holdsSlot (update_of_ne apart ..)).trans holds, inside⟩
  · intro u r holds inside
    have inside' : (s.pc u).published = some r := inside
    have apart : u ≠ s.nextThread := by
      rintro rfl
      rw [unbornPc] at inside'
      cases inside'
    have holds' : (s.life u).holdsSlot = true :=
      (congrArg Life.holdsSlot (update_of_ne apart ..)).symm.trans holds
    change s.slot (update s.tidOf s.nextThread tid u) = some r
    rw [update_of_ne apart]
    exact base.slot_set u r holds' inside'

/-! ### Ports -/

theorem ipcPortCreate (t : Thread) (id : Nat) : Base (ipcPortCreate s t id) := by
  refine ⟨base.owner, ?_, ?_, ?_, base.number, base.unborn, base.slot_owner, base.slot_set⟩
  · intro r bound
    exact Nat.lt_succ_of_lt (base.port_lt r bound)
  · intro other p
    refine update_cases (motive := fun slot => slot = some p → _) ?_ ?_
    · intro _ new
      cases new
      exact Nat.lt_succ_self _
    · intro _ old
      exact Nat.lt_succ_of_lt (base.table_lt other p old)
  · intro u p found
    exact Nat.lt_succ_of_lt (base.found_lt u p found)

theorem ipcReplyStaged (t : Thread) (tid : Tid) (reply : Reply) :
    Base (ipcReplyStaged s t tid reply) := by
  unfold Channel.ipcReplyStaged
  split
  · exact { base with }
  next r set =>
    have marked := base.setRequests _ (update_view Pending.home (show Pending.home
        { s.requests r with
          reply := some reply
          replyReceived := true
          replyWait := (s.requests r).replyWait.tail } = _ from rfl))
    exact { marked with }

theorem sysReply (t : Thread) (tid : Tid) (answers : Option Request)
    (payload : Bool) : Base (sysReply s t tid answers payload) := by
  unfold Channel.sysReply
  split
  · apply ipcReplyStaged
    exact { base with }
  · exact base.ipcReplyStaged t tid _

/-! ### The sections of a call -/

theorem destroyMark (alive : s.life t = .alive) (here : s.pc t = .destroyMark p) :
    Base (destroyMark s t p) := by
  have marked := base.setRequests (fun r =>
    if r ∈ markBatch s p then
      { s.requests r with portDead := true, replyReceived := true }
    else s.requests r) (by
      intro r
      split <;> rfl)
  refine (marked.setPort p _).move alive here ⟨Or.inr ?_, ?_, ?_⟩
  · split <;> rfl
  · split <;> rfl
  · split <;> rfl

theorem turn {flag : Bool} {s' : State} (alive : s.life t = .alive)
    (turn : Turn s t flag s') : Base s' := by
  cases turn with
  | walk here lane =>
    refine (base.brush lane.brush).move ((congrFun lane.brush.life t).trans alive)
      ((congrFun lane.brush.pc t).trans here) ?_
    cases lane with
    | quiet way => cases way <;> exact ⟨Or.inl rfl, rfl, rfl⟩
    | _ => exact ⟨Or.inl rfl, rfl, rfl⟩
  | pass here leaves =>
    refine (base.brush leaves.brush).move ((congrFun leaves.brush.life t).trans alive)
      ((congrFun leaves.brush.pc t).trans here) ?_
    cases leaves <;> exact ⟨Or.inl rfl, rfl, rfl⟩
  | newRequest here pending home =>
    exact base.newRequest alive here pending (Prod.ext home.1 home.2)
  | publish here => exact base.publish alive here
  | enqueue here => exact (base.setPort _ _).move alive here ⟨Or.inl rfl, rfl, rfl⟩
  | refuse => exact base.retract alive (Or.inr rfl) rfl rfl
  | retract here => exact base.retract alive (Or.inl (by rw [here]; rfl)) rfl rfl
  | deliver here => exact move { base with } alive here ⟨Or.inr rfl, rfl, rfl⟩
  | mark here => exact base.destroyMark alive here

theorem cleanup (dead : s.life t = .dead) : Base (ipcCleanupThread s t) := by
  unfold ipcCleanupThread
  split
  · next empty =>
      have buried := base.bury .cleaned dead rfl
      have noChange : s.setSlot (s.tidOf t) none = s := by
        unfold State.setSlot
        rw [← empty, update_eq_self]
      rwa [noChange] at buried
  · next r set =>
      have marked : ∀ life : Life, life.holdsSlot = false → Base
          (((s.setSlot (s.tidOf t) none).setRequest r
            { s.requests r with portDead := true, replyReceived := true }).setLife t life) :=
        fun life gone => (base.bury life dead gone).setRequests _ (update_view Pending.home rfl)
      dsimp only
      split
      · exact marked _ rfl
      · exact setPort (marked _ rfl) _ _

end

end Base

theorem base_step (s : State) (label : Label) (s' : State) (base : Base s)
    (taken : Step s label s') : Base s' := by
  cases stride_of_step taken with
  | run alive _ turn => exact base.turn alive turn
  | missing _ touch => exact base.brush touch.toBrush
  | @found t _ _ p _ alive here listed door =>
    refine (base.setPort p _).setPc alive ?_ ?_ ?_
    · cases door <;> exact Or.inr rfl
    · change _ = (s.pc t).published
      rw [here]
      cases door <;> rfl
    · intro q found
      cases door with
      | send =>
        cases found
        exact base.table_lt _ _ listed
      | _ => cases found
  | create => exact base.ipcPortCreate _ _
  | reply => exact base.sysReply _ _ _ _
  | destroy alive here => exact (base.brush (.close ..)).move alive here ⟨Or.inr rfl, rfl, rfl⟩
  | unblock => exact { base with }
  | spawn free => exact base.spawn free
  | kill alive brush =>
    refine (base.setLife ?_ ?_).brush brush <;> rw [alive]
    · nofun
    · rfl
  | cleanup dead => exact base.cleanup dead
  | bury unlinking brush =>
    refine (base.setLife ?_ ?_).brush brush <;> rw [unlinking]
    · nofun
    · rfl
  | reap cleaned => exact base.reapDetach cleaned

theorem steps_of_execAll {labels : List Label} : ∀ {s s' : State},
    execAll s labels = some s' → Lib.Steps Step s labels s' := by
  induction labels with
  | nil =>
    intro s s' done
    cases done
    exact .nil s
  | cons _ _ ih =>
    intro s s' done
    obtain ⟨_, first, rest⟩ := Option.bind_eq_some_iff.mp done
    exact .cons first (ih rest)

/-- The state after the labels in order, while each passes the check. -/
def execChecked (check : State → Label → Bool) (s : State) : List Label → Option State
  | [] => some s
  | label :: labels =>
    if check s label then
      (step s label).bind (fun next => execChecked check next labels)
    else none

theorem steps_of_execChecked {check : State → Label → Bool} {condition : State → Label → Prop}
    (sound : ∀ s label, check s label = true → condition s label)
    {labels : List Label} : ∀ {s s' : State},
    execChecked check s labels = some s' → Lib.Steps (Lib.Guarded Step condition) s labels s' := by
  induction labels with
  | nil =>
    intro s s' done
    cases done
    exact .nil s
  | cons label _ ih =>
    intro s s' done
    simp only [execChecked, Option.ite_none_right_eq_some] at done
    obtain ⟨checked, done⟩ := done
    obtain ⟨_, first, rest⟩ := Option.bind_eq_some_iff.mp done
    exact .cons ⟨first, sound s label checked⟩ (ih rest)

end MainDob.Kernel.Channel
