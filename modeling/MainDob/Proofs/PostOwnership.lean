/-
Purpose: Who frees the payload of a post. The ledger of each post is followed from its system call
  to the end of its message, whichever way that ends.
Main exports: ledgerOf, FreesOwn, post_payload_freed_once
-/
import MainDob.Kernel.Post

namespace MainDob.Kernel.Post

open Function (update update_of_ne update_self update_eq_self)
open List

/-- The heap events of post number `k`, in order. -/
def ledgerOf (lines : List (Nat × Event)) (k : Nat) : List Event :=
  lines.filterMap fun line => if line.1 = k then some line.2 else none

/-- Every buffer that is freed was obtained for this message before, and was
not freed before. -/
def FreesOwn (events : List Event) : Prop :=
  ∀ before buffer after, events = before ++ .kfree buffer :: after →
    .kmalloc buffer ∈ before ∧ .kfree buffer ∉ before

/-- Every buffer obtained for this message has been freed. -/
def FreesAll (events : List Event) : Prop :=
  ∀ buffer, .kmalloc buffer ∈ events → .kfree buffer ∈ events

/-- An entry in the queue of the port under `id`. -/
def Queued (s : State) (id : Nat) (entry : Entry) : Prop :=
  ∃ port, s.table id = some port ∧ entry ∈ port.msgQueue

/-- The message of post number `k` still waits in a queue. -/
def InFlight (s : State) (k : Nat) : Prop :=
  ∃ id entry, Queued s id entry ∧ entry.serial = some k

/-- The message read from user memory, if one was read, has no payload
pointer or a positive payload size. -/
def PayloadSized (call : PostCall) : Prop :=
  ∀ msg, call.copied = some msg → msg.payload ≠ 0 → 0 < msg.payloadSize

/-! ### Ledgers -/

variable {entry : Entry}

section Ledgers

variable {before after : List (Nat × Event)} {events : List Event}
variable {j k : Nat}

theorem ledgerOf_append : ledgerOf (before ++ after) k = ledgerOf before k ++ ledgerOf after k :=
  filterMap_append

theorem ledgerOf_own : ledgerOf (events.map (Prod.mk k)) k = events := by
  induction events with
  | nil => rfl
  | cons event events ih =>
    have head : ledgerOf ((k, event) :: events.map (Prod.mk k)) k =
        event :: ledgerOf (events.map (Prod.mk k)) k := by
      simp only [ledgerOf, filterMap_cons, if_true]
    rw [map_cons, head, ih]

theorem ledgerOf_other (different : j ≠ k) : ledgerOf (events.map (Prod.mk j)) k = [] := by
  simp [ledgerOf, different]

theorem ledgerOf_entryLines_own (own : entry.serial = some k) :
    ledgerOf (entryLines entry events) k = events := by
  simp only [entryLines, own]
  exact ledgerOf_own

theorem ledgerOf_entryLines_other (other : entry.serial ≠ some k) :
    ledgerOf (entryLines entry events) k = [] := by
  rcases serialEq : entry.serial with _ | serial
  · simp [entryLines, serialEq, ledgerOf]
  simp only [entryLines, serialEq]
  refine ledgerOf_other fun same => other ?_
  rw [serialEq, same]

/-- The ledger lines of a batch of entries that leave their queue. -/
def releaseLines (release : Entry → List Event) (batch : List Entry) : List (Nat × Event) :=
  batch.flatMap fun entry => entryLines entry (release entry)

variable {release : Entry → List Event} {batch : List Entry}

theorem ledgerOf_releaseLines_other (absent : ∀ entry ∈ batch, entry.serial ≠ some k) :
    ledgerOf (releaseLines release batch) k = [] := by
  induction batch with
  | nil => rfl
  | cons entry _ ih =>
    have headAbsent := absent entry mem_cons_self
    have tailAbsent := ih fun other present => absent other (mem_cons_of_mem _ present)
    rw [releaseLines, flatMap_cons, ledgerOf_append,
      ledgerOf_entryLines_other headAbsent, nil_append]
    exact tailAbsent

theorem ledgerOf_releaseLines_own (distinct : (batch.filterMap Entry.serial).Nodup)
    (present : entry ∈ batch) (own : entry.serial = some k) :
    ledgerOf (releaseLines release batch) k = release entry := by
  induction batch with
  | nil => cases present
  | cons head rest ih =>
    rw [releaseLines, flatMap_cons, ledgerOf_append]
    rcases mem_cons.mp present with rfl | inRest
    · have absent : ∀ other ∈ rest, other.serial ≠ some k := by
        intro other inRest same
        rw [filterMap_cons_some own] at distinct
        exact (nodup_cons.mp distinct).1 (mem_filterMap.mpr ⟨other, inRest, same⟩)
      have restNothing : ledgerOf (releaseLines release rest) k = [] :=
        ledgerOf_releaseLines_other absent
      rw [releaseLines] at restNothing
      rw [ledgerOf_entryLines_own own, restNothing, append_nil]
    · have headOther : head.serial ≠ some k := by
        intro same
        rw [filterMap_cons_some same] at distinct
        exact (nodup_cons.mp distinct).1 (mem_filterMap.mpr ⟨entry, inRest, own⟩)
      have restDistinct : (rest.filterMap Entry.serial).Nodup :=
        distinct.sublist ((sublist_cons_self head rest).filterMap _)
      rw [ledgerOf_entryLines_other headOther, nil_append]
      exact ih restDistinct inRest

end Ledgers

/-! ### One system call -/

variable {held : Entry → Prop}

section Call

variable (s : State) (call : PostCall)

/-- A port with one more entry at the end of its queue. -/
def Port.push (port : Port) (entry : Entry) : Port :=
  { port with
    msgQueue := port.msgQueue ++ [entry]
    msgCount := port.msgCount + 1 }

theorem snapshotPayload_cases (msg : Message) :
    (∃ events status, snapshotPayload call msg = (events, .error status) ∧
      (events = [] ∨ events = [.kmalloc call.snap, .kfree call.snap]) ∧
      msg.payload ≠ 0 ∧ 0 < msg.payloadSize) ∨
    (snapshotPayload call msg = ([.kmalloc call.snap], .ok { msg with payload := call.snap }) ∧
      call.snap ≠ 0 ∧ msg.payload ≠ 0 ∧ 0 < msg.payloadSize) ∨
    (snapshotPayload call msg = ([], .ok msg) ∧ ¬ (msg.payload ≠ 0 ∧ 0 < msg.payloadSize)) := by
  unfold snapshotPayload
  by_cases carried : msg.payload ≠ 0 ∧ 0 < msg.payloadSize
  · rw [if_pos carried]
    split
    · exact .inl ⟨_, _, rfl, .inl rfl, carried⟩
    split
    · exact .inl ⟨_, _, rfl, .inl rfl, carried⟩
    next nonzero =>
    split
    · exact .inl ⟨_, _, rfl, .inr rfl, carried⟩
    · exact .inr (.inl ⟨rfl, nonzero, carried⟩)
  · rw [if_neg carried]
    exact .inr (.inr ⟨rfl, carried⟩)

/-- The pointer that `post_common` leaves to its caller once it has an
entry. -/
def leftPointer (msg : Message) : Pointer :=
  if msg.payload ≠ 0 ∧ 0 < msg.payloadSize then 0 else msg.payload

/-- The three ways out of `ipc_post` and `ipc_post_checked`: refused before
an entry was filled, refused by a full queue, or queued. -/
inductive IpcPostCase (msg : Message) :
    Option Port × Message × List Event × IpcStatus → Prop where
  | refused (port : Option Port) (left : Message) (status : IpcStatus)
      (same : port = none ∨ port = lookup s call)
      (kept : left.payload = msg.payload) :
      IpcPostCase msg (port, left, [], status)
  | full (port : Port) (left : Message) (found : lookup s call = some port)
      (pointer : left.payload = leftPointer msg) :
      IpcPostCase msg (some port, left,
        if msg.payload ≠ 0 then [.kfree msg.payload] else [], .portFull)
  | queued (port : Port) (left : Message) (entry : Entry)
      (found : lookup s call = some port)
      (serial : entry.serial = some s.posts.length)
      (owned : entry.payloadOwned = true)
      (payload : entry.msg.payload = msg.payload)
      (size : entry.msg.payloadSize = msg.payloadSize)
      (pointer : left.payload = leftPointer msg) :
      IpcPostCase msg (some (port.push entry), left, [], .ok)

theorem ipcPost_cases (msg : Message) : IpcPostCase s call msg (ipcPost s call msg) := by
  unfold ipcPost
  split
  · exact .refused _ _ _ (.inl rfl) rfl
  next port found =>
  simp only [postCommon]
  split
  · exact .refused _ _ _ (.inr found.symm) rfl
  split
  · exact .refused _ _ _ (.inr found.symm) rfl
  next pid tid running =>
  split
  · exact .refused _ _ _ (.inr found.symm) rfl
  unfold enqueueAsync
  split
  · have freed : ∀ signed : Message, signed.payload = msg.payload →
        releaseEntryPayload ⟨signed, true, some s.posts.length⟩ =
          if msg.payload ≠ 0 then [.kfree msg.payload] else [] := by
      intro signed samePayload
      simp [releaseEntryPayload, samePayload]
    simp only [freed]
    refine .full port _ found ?_
    unfold leftPointer
    split <;> rfl
  · refine .queued port _ _ found rfl rfl rfl rfl ?_
    dsimp only [leftPointer]
    split <;> rfl

/-- What `sys_post` does once it has a message to post. -/
def finishPost (ready : Message) : Option Port × List Event × IpcStatus :=
  let (port, left, events, status) := ipcPost s call ready
  (port, events ++ (if left.payload ≠ 0 then [.kfree left.payload] else []), status)

theorem sysPost_of_ready {msg ready : Message} {taken : List Event}
    (copied : call.copied = some msg) (snapshot : snapshotPayload call msg = (taken, .ok ready)) :
    (sysPost s call).1 = (finishPost s call ready).1 ∧
      (sysPost s call).2.1 = taken ++ (finishPost s call ready).2.1 := by
  simp [sysPost, finishPost, copied, snapshot]

/-- The release of a buffer, if there is one. -/
def frees (buffer : Pointer) : List Event := if buffer ≠ 0 then [.kfree buffer] else []

theorem finishPost_cases (ready : Message) :
    (((finishPost s call ready).1 = none ∨ (finishPost s call ready).1 = lookup s call) ∧
      ((finishPost s call ready).2.1 = frees ready.payload ∨
        (finishPost s call ready).2.1 = frees ready.payload ++ frees (leftPointer ready))) ∨
    ∃ port entry, lookup s call = some port ∧ (finishPost s call ready).1 = some (port.push entry) ∧
      entry.serial = some s.posts.length ∧ entry.payloadOwned = true ∧
      entry.msg.payload = ready.payload ∧ entry.msg.payloadSize = ready.payloadSize ∧
      (finishPost s call ready).2.1 = frees (leftPointer ready) := by
  have way := ipcPost_cases s call ready
  unfold finishPost
  generalize ipcPost s call ready = result at way ⊢
  cases way with
  | refused _ _ _ same kept => exact .inl ⟨same, .inl (by rw [← kept]; rfl)⟩
  | full _ _ found pointer => exact .inl ⟨.inr found.symm, .inr (by rw [← pointer]; rfl)⟩
  | queued port _ entry found serial owned payload size pointer =>
    exact .inr ⟨port, entry, found, rfl, serial, owned, payload, size, by rw [← pointer]; rfl⟩

/-! ### Where a message stands -/

/-- Where the ledger of a message with a sized payload can stand, given the
entries that still hold the message. -/
inductive Standing (held : Entry → Prop) : List Event → Prop where
  | quiet (null : ∀ entry, held entry → entry.msg.payload = 0) :
      Standing held []
  | carried (buffer : Pointer) (nonzero : buffer ≠ 0)
      (present : ∃ entry, held entry)
      (own : ∀ entry, held entry → entry.payloadOwned = true ∧
        entry.msg.payload = buffer ∧ 0 < entry.msg.payloadSize) :
      Standing held [.kmalloc buffer]
  | settled (buffer : Pointer) (gone : ∀ entry, ¬ held entry) :
      Standing held [.kmalloc buffer, .kfree buffer]

/-- Something has been freed though nothing was allocated. -/
def Foreign (events : List Event) : Prop :=
  (∃ buffer, .kfree buffer ∈ events) ∧ ∀ buffer, .kmalloc buffer ∉ events

/-- Where the ledger of a call stands. -/
def Stands (call : PostCall) (held : Entry → Prop) (events : List Event) :
    Prop :=
  (PayloadSized call → Standing held events) ∧ (¬ PayloadSized call → Foreign events)

/-- What a call leaves behind: the port, and its ledger with the entry it has
queued. -/
inductive CallCase (s : State) (call : PostCall) :
    Option Port → List Event → Prop where
  | closed (port : Option Port) (events : List Event)
      (same : port = none ∨ port = lookup s call)
      (stands : Stands call (fun _ => False) events) :
      CallCase s call port events
  | opened (port : Port) (entry : Entry) (events : List Event)
      (found : lookup s call = some port)
      (serial : entry.serial = some s.posts.length)
      (stands : Stands call (· = entry) events) :
      CallCase s call (some (port.push entry)) events

variable {s call}

theorem stands_of_sized {events : List Event} (sized : PayloadSized call)
    (standing : Standing held events) : Stands call held events :=
  ⟨fun _ => standing, fun unsized => absurd sized unsized⟩

theorem payloadSized_iff {msg : Message} (copied : call.copied = some msg) :
    PayloadSized call ↔ (msg.payload ≠ 0 → 0 < msg.payloadSize) := by
  constructor
  · intro sized
    exact sized msg copied
  intro sized other otherCopied
  obtain rfl : msg = other := by
    rw [copied] at otherCopied
    exact Option.some.inj otherCopied
  exact sized

theorem sysPost_cases (s : State) (call : PostCall) :
    CallCase s call (sysPost s call).1 (sysPost s call).2.1 := by
  rcases copied : call.copied with _ | msg
  · have sized : PayloadSized call := by
      intro msg other
      rw [copied] at other
      cases other
    simp only [sysPost, copied]
    exact .closed _ _ (.inl rfl)
      (stands_of_sized sized (.quiet fun _ impossible => impossible.elim))
  have sizedIff := payloadSized_iff copied
  rcases snapshotPayload_cases call msg with
    ⟨events, status, refused, balanced, nonzero, size⟩ |
    ⟨taken, snapNonzero, nonzero, size⟩ | ⟨plain, notCarried⟩
  · -- refused before the post: the snapshot, if taken, is freed at once
    have sized := sizedIff.mpr fun _ => size
    simp only [sysPost, copied, refused]
    refine .closed _ _ (.inl rfl) (stands_of_sized sized ?_)
    rcases balanced with rfl | rfl
    · exact .quiet fun _ impossible => impossible.elim
    · exact .settled _ fun _ impossible => impossible
  · -- a snapshot was taken and goes into the post
    have sized := sizedIff.mpr fun _ => size
    obtain ⟨portEq, eventsEq⟩ := sysPost_of_ready s call copied taken
    rw [portEq, eventsEq]
    have stolen : leftPointer { msg with payload := call.snap } = 0 := if_pos ⟨snapNonzero, size⟩
    rcases finishPost_cases s call { msg with payload := call.snap } with
      ⟨same, freed⟩ | ⟨port, entry, found, queued, serial, owned, payload, entrySize, nothing⟩
    · refine .closed _ _ same (stands_of_sized sized ?_)
      rw [stolen] at freed
      simp only [frees, if_pos snapNonzero] at freed
      rw [freed.elim id id]
      exact .settled _ fun _ impossible => impossible
    · rw [queued, nothing, stolen]
      refine .opened port entry _ found serial (stands_of_sized sized ?_)
      refine .carried _ snapNonzero ⟨entry, rfl⟩ ?_
      rintro other rfl
      exact ⟨owned, payload, entrySize ▸ size⟩
  obtain ⟨portEq, eventsEq⟩ := sysPost_of_ready s call copied plain
  rw [portEq, eventsEq, nil_append]
  by_cases null : msg.payload = 0
  · have sized := sizedIff.mpr fun nonzero => absurd null nonzero
    have nothing : leftPointer msg = 0 := by rw [leftPointer, null, ite_self]
    rcases finishPost_cases s call msg with
      ⟨same, freed⟩ | ⟨port, entry, found, queued, serial, owned, payload, _, freed⟩
    · rw [nothing, null] at freed
      rw [freed.elim id id]
      exact .closed _ _ same (stands_of_sized sized (.quiet fun _ impossible => impossible.elim))
    · rw [queued, freed, nothing]
      refine .opened port entry _ found serial (stands_of_sized sized ?_)
      refine .quiet ?_
      rintro other rfl
      exact payload.trans null
  · -- a pointer without a size: freed as it came
    have size : msg.payloadSize = 0 := by
      by_contra positive
      exact notCarried ⟨null, Nat.pos_of_ne_zero positive⟩
    have unsized : ¬ PayloadSized call := by
      intro sized
      exact absurd size (Nat.ne_of_gt (sizedIff.mp sized null))
    have stands : ∀ held, Stands call held [.kfree msg.payload] ∧
        Stands call held [.kfree msg.payload, .kfree msg.payload] := fun _ =>
      ⟨⟨fun sized => absurd sized unsized, fun _ => ⟨⟨_, mem_cons_self⟩, by simp⟩⟩,
        fun sized => absurd sized unsized, fun _ => ⟨⟨_, mem_cons_self⟩, by simp⟩⟩
    have kept : leftPointer msg = msg.payload := if_neg notCarried
    have frees_payload : frees msg.payload = [.kfree msg.payload] := if_pos null
    rcases finishPost_cases s call msg with
      ⟨same, freed⟩ | ⟨port, entry, found, queued, serial, _, _, _, freed⟩
    · rw [kept, frees_payload] at freed
      rcases freed with once | twice
      · rw [once]
        exact .closed _ _ same (stands _).1
      · rw [twice]
        exact .closed _ _ same (stands _).2
    · rw [queued, freed, kept, frees_payload]
      exact .opened port entry _ found serial (stands _).1

end Call

/-! ### Releases -/

theorem Standing.released {held' : Entry → Prop} {events release : List Event}
    (standing : Standing held events) (present : held entry) (gone : ∀ other, ¬ held' other)
    (null : entry.msg.payload = 0 → release = [])
    (own : entry.payloadOwned = true → entry.msg.payload ≠ 0 → 0 < entry.msg.payloadSize →
      release = [.kfree entry.msg.payload]) : Standing held' (events ++ release) := by
  cases standing with
  | quiet nullHeld =>
    rw [null (nullHeld entry present)]
    exact .quiet fun other impossible => absurd impossible (gone other)
  | carried _ nonzero _ ownHeld =>
    obtain ⟨owned, payload, size⟩ := ownHeld entry present
    subst payload
    rw [own owned nonzero size]
    exact .settled _ gone
  | settled _ none => exact absurd present (none entry)

theorem Foreign.released {events release : List Event} (foreign : Foreign events)
    (frees : ∀ buffer, .kmalloc buffer ∉ release) : Foreign (events ++ release) := by
  obtain ⟨⟨buffer, freed⟩, unallocated⟩ := foreign
  refine ⟨⟨buffer, mem_append_left _ freed⟩, ?_⟩
  intro other allocated
  rcases mem_append.mp allocated with old | new
  · exact unallocated other old
  · exact frees other new

/-- The events of a release: those of the drain or those of a delivery. -/
inductive Release (entry : Entry) : List Event → Prop where
  | drain : Release entry (releaseEntryPayload entry)
  | delivery (ubuf : Pointer) :
      Release entry (receiveToUser entry.msg entry.payloadOwned ubuf).2

section

variable {release : List Event} (way : Release entry release)
include way

theorem Release.null (null : entry.msg.payload = 0) : release = [] := by
  cases way with
  | drain => simp [releaseEntryPayload, null]
  | delivery => simp [receiveToUser, null]

theorem Release.own (owned : entry.payloadOwned = true) (nonzero : entry.msg.payload ≠ 0)
    (size : 0 < entry.msg.payloadSize) : release = [.kfree entry.msg.payload] := by
  cases way with
  | drain => simp [releaseEntryPayload, owned, nonzero]
  | delivery => simp [receiveToUser, deliverPayloadToUser, owned, nonzero, size, Nat.ne_of_gt size]

theorem Release.frees (buffer : Pointer) : .kmalloc buffer ∉ release := by
  cases way with
  | drain =>
    unfold releaseEntryPayload
    split <;> simp
  | delivery =>
    unfold receiveToUser deliverPayloadToUser
    repeat' split
    all_goals simp

end

theorem Stands.released {call : PostCall} {held' : Entry → Prop} {events release : List Event}
    (stands : Stands call held events) (present : held entry) (gone : ∀ other, ¬ held' other)
    (way : Release entry release) : Stands call held' (events ++ release) :=
  ⟨fun sized => (stands.1 sized).released present gone way.null way.own,
    fun unsized => (stands.2 unsized).released way.frees⟩

/-! ### The posts that wait -/

/-- The entries of posts in the queue of the port under `id`. -/
def waiting (s : State) (id : Nat) : List Entry :=
  ((s.table id).elim [] Port.msgQueue).filter fun entry => entry.serial.isSome

/-- The entries of post number `k` among those that wait. -/
def HeldBy (queues : Nat → List Entry) (k : Nat) (entry : Entry) : Prop :=
  (∃ id, entry ∈ queues id) ∧ entry.serial = some k

/-- Every waiting entry is the only one of its post, and every post's ledger
stands where its entry says. -/
structure Tracked (queues : Nat → List Entry) (posts : List PostCall)
    (ledger : List (Nat × Event)) : Prop where
  numbered : ∀ {id entry k}, entry ∈ queues id → entry.serial = some k → k < posts.length
  distinct : ∀ id, ((queues id).filterMap Entry.serial).Nodup
  apart : ∀ {id other first second k}, first ∈ queues id →
    second ∈ queues other → first.serial = some k → second.serial = some k → id = other
  past : ∀ {k event}, (k, event) ∈ ledger → k < posts.length
  standing : ∀ {k call}, posts[k]? = some call → Stands call (HeldBy queues k) (ledgerOf ledger k)

theorem serial_not_in_both {front back : List Entry} {first second : Entry} {k : Nat}
    (distinct : ((front ++ back).filterMap Entry.serial).Nodup) (inFront : first ∈ front)
    (inBack : second ∈ back) (firstSerial : first.serial = some k)
    (secondSerial : second.serial = some k) : False := by
  rw [filterMap_append] at distinct
  exact (nodup_append.mp distinct).2.2 k (mem_filterMap.mpr ⟨first, inFront, firstSerial⟩) k
    (mem_filterMap.mpr ⟨second, inBack, secondSerial⟩) rfl

variable {queues : Nat → List Entry} {id : Nat}

theorem mem_of_mem_update {other : Nat} {batch rest : List Entry} (split : queues id = batch ++
    rest) (present : entry ∈ update queues id rest other) : entry ∈ queues other := by
  by_cases same : other = id
  · subst same
    rw [update_self] at present
    rw [split]
    exact mem_append_right _ present
  · rwa [update_of_ne same] at present

variable {posts : List PostCall} {ledger : List (Nat × Event)}

section

variable (tracked : Tracked queues posts ledger)
include tracked

theorem Tracked.dropped {batch rest : List Entry} {release : Entry → List Event} (split : queues id = batch ++ rest)
    (ways : ∀ entry, Release entry (release entry)) :
    Tracked (update queues id rest) posts (ledger ++ releaseLines release batch) where
  numbered := fun present => tracked.numbered (mem_of_mem_update split present)
  distinct := by
    intro other
    by_cases same : other = id
    · subst same
      have whole := tracked.distinct other
      rw [split] at whole
      rw [update_self]
      exact whole.sublist ((sublist_append_right batch rest).filterMap _)
    · rw [update_of_ne same]
      exact tracked.distinct other
  apart := fun first second =>
    tracked.apart (mem_of_mem_update split first) (mem_of_mem_update split second)
  past := by
    intro k event member
    rcases mem_append.mp member with old | new
    · exact tracked.past old
    obtain ⟨entry, inBatch, line⟩ := mem_flatMap.mp new
    have present : entry ∈ queues id := by
      rw [split]
      exact mem_append_left _ inBatch
    unfold entryLines at line
    split at line
    · next serial serialEq =>
      obtain ⟨_, _, pairEq⟩ := mem_map.mp line
      cases pairEq
      exact tracked.numbered present serialEq
    · cases line
  standing := by
    intro k call made
    have before := tracked.standing made
    have whole := tracked.distinct id
    rw [split] at whole
    rw [ledgerOf_append]
    by_cases inBatch : ∃ entry ∈ batch, entry.serial = some k
    · obtain ⟨entry, present, own⟩ := inBatch
      have inQueue : entry ∈ queues id := by
        rw [split]
        exact mem_append_left _ present
      have batchDistinct : (batch.filterMap Entry.serial).Nodup :=
        whole.sublist ((sublist_append_left batch rest).filterMap _)
      rw [ledgerOf_releaseLines_own batchDistinct present own]
      refine before.released ⟨⟨id, inQueue⟩, own⟩ ?_ (ways entry)
      rintro _ ⟨⟨other, stays⟩, leftOwn⟩
      have sameId : id = other := tracked.apart inQueue (mem_of_mem_update split stays) own leftOwn
      subst sameId
      rw [update_self] at stays
      exact serial_not_in_both whole present stays own leftOwn
    · have absent : ∀ entry ∈ batch, entry.serial ≠ some k :=
        fun entry present own => inBatch ⟨entry, present, own⟩
      have sameHeld : HeldBy (update queues id rest) k = HeldBy queues k := by
        funext entry
        refine propext ⟨?_, ?_⟩
        · rintro ⟨⟨other, stays⟩, own⟩
          exact ⟨⟨other, mem_of_mem_update split stays⟩, own⟩
        rintro ⟨⟨other, present⟩, own⟩
        refine ⟨⟨other, ?_⟩, own⟩
        by_cases same : other = id
        · subst same
          rw [split] at present
          rw [update_self]
          rcases mem_append.mp present with front | back
          · exact absurd own (absent entry front)
          · exact back
        · rwa [update_of_ne same]
      rw [ledgerOf_releaseLines_other absent, append_nil, sameHeld]
      exact before

theorem Tracked.ledger_future : ledgerOf ledger posts.length = [] := by
  refine filterMap_eq_nil_iff.mpr ?_
  rintro ⟨k, _⟩ member
  have earlier : k < posts.length := tracked.past member
  simp only [Nat.ne_of_lt earlier, if_false]

theorem Tracked.posted {queues' : Nat → List Entry} {call : PostCall} {events : List Event}
    (numbered : ∀ {id entry k}, entry ∈ queues' id → entry.serial = some k →
      k < (posts ++ [call]).length) (distinct : ∀ id, ((queues' id).filterMap Entry.serial).Nodup)
    (apart : ∀ {id other first second k}, first ∈ queues' id →
      second ∈ queues' other → first.serial = some k → second.serial = some k → id = other)
    (others : ∀ k, k < posts.length → HeldBy queues' k = HeldBy queues k)
    (stands : Stands call (HeldBy queues' posts.length) events) :
    Tracked queues' (posts ++ [call]) (ledger ++ events.map (Prod.mk posts.length)) where
  numbered := numbered
  distinct := distinct
  apart := apart
  past := by
    intro k event member
    rw [length_append]
    rcases mem_append.mp member with old | new
    · exact Nat.lt_of_lt_of_le (tracked.past old) (Nat.le_add_right _ _)
    obtain ⟨_, _, pairEq⟩ := mem_map.mp new
    cases pairEq
    exact Nat.lt_add_one _
  standing := by
    intro k made madeEq
    rw [ledgerOf_append]
    rcases Nat.lt_trichotomy k posts.length with earlier | rfl | later
    · rw [List.getElem?_append_left earlier] at madeEq
      rw [ledgerOf_other (Nat.ne_of_gt earlier), append_nil, others k earlier]
      exact tracked.standing madeEq
    · rw [List.getElem?_concat_length] at madeEq
      cases madeEq
      rw [tracked.ledger_future, ledgerOf_own, nil_append]
      exact stands
    · have beyond : (posts ++ [call]).length ≤ k := by
        rw [length_append]
        exact later
      rw [List.getElem?_eq_none beyond] at madeEq
      cases madeEq

theorem Tracked.posted_closed {call : PostCall} {events : List Event} (stands : Stands call (fun _ => False) events) :
    Tracked queues (posts ++ [call]) (ledger ++ events.map (Prod.mk posts.length)) := by
  refine tracked.posted ?_ tracked.distinct tracked.apart (fun k _ => rfl) ?_
  · intro id entry k present own
    rw [length_append]
    exact Nat.lt_of_lt_of_le (tracked.numbered present own) (Nat.le_add_right _ _)
  have nobody : HeldBy queues posts.length = fun _ => False := by
    funext entry
    refine propext ⟨?_, False.elim⟩
    rintro ⟨⟨_, present⟩, own⟩
    exact Nat.lt_irrefl _ (tracked.numbered present own)
  rw [nobody]
  exact stands

end

theorem mem_update_push {other : Nat} {new : Entry} : entry ∈ update queues id
    (queues id ++ [new]) other ↔ entry ∈ queues other ∨ (other = id ∧ entry = new) := by
  by_cases same : other = id
  · subst same
    simp
  · simp [same]

theorem Tracked.posted_opened {call : PostCall} {events : List Event} {new : Entry} (id : Nat)
    (tracked : Tracked queues posts ledger) (serial : new.serial = some posts.length)
    (stands : Stands call (· = new) events) : Tracked (update queues id (queues id ++ [new]))
    (posts ++ [call]) (ledger ++ events.map (Prod.mk posts.length)) := by
  have unused : ∀ {other entry}, entry ∈ queues other → entry.serial ≠ some posts.length := by
    intro other entry present own
    exact Nat.lt_irrefl _ (tracked.numbered present own)
  refine tracked.posted ?_ ?_ ?_ ?_ ?_
  · intro other entry k present own
    rw [length_append]
    rcases mem_update_push.mp present with old | ⟨_, rfl⟩
    · exact Nat.lt_of_lt_of_le (tracked.numbered old own) (Nat.le_add_right _ _)
    rw [serial] at own
    cases own
    exact Nat.lt_add_one _
  · intro other
    by_cases same : other = id
    · subst same
      rw [update_self, filterMap_append, nodup_append]
      refine ⟨tracked.distinct other, ?_, ?_⟩
      · simp [serial]
      intro first firstIn second secondIn equal
      obtain ⟨_, present, own⟩ := mem_filterMap.mp firstIn
      obtain ⟨_, lastIn, lastOwn⟩ := mem_filterMap.mp secondIn
      rw [mem_singleton.mp lastIn, serial] at lastOwn
      cases lastOwn
      exact unused present (equal ▸ own)
    · rw [update_of_ne same]
      exact tracked.distinct other
  · intro one other first second k firstIn secondIn firstOwn secondOwn
    rcases mem_update_push.mp firstIn with firstOld | ⟨rfl, rfl⟩
    · rcases mem_update_push.mp secondIn with secondOld | ⟨rfl, rfl⟩
      · exact tracked.apart firstOld secondOld firstOwn secondOwn
      rw [serial] at secondOwn
      cases secondOwn
      exact absurd firstOwn (unused firstOld)
    · rcases mem_update_push.mp secondIn with secondOld | ⟨rfl, rfl⟩
      · rw [serial] at firstOwn
        cases firstOwn
        exact absurd secondOwn (unused secondOld)
      · rfl
  · intro k earlier
    funext entry
    refine propext ⟨?_, ?_⟩
    · rintro ⟨⟨other, present⟩, own⟩
      rcases mem_update_push.mp present with old | ⟨rfl, rfl⟩
      · exact ⟨⟨other, old⟩, own⟩
      rw [serial] at own
      cases own
      exact absurd earlier (Nat.lt_irrefl _)
    · rintro ⟨⟨other, present⟩, own⟩
      exact ⟨⟨other, mem_update_push.mpr (.inl present)⟩, own⟩
  · have only : HeldBy (update queues id (queues id ++ [new])) posts.length = (· = new) := by
      funext entry
      refine propext ⟨?_, ?_⟩
      · rintro ⟨⟨_, present⟩, own⟩
        rcases mem_update_push.mp present with old | ⟨_, same⟩
        · exact absurd own (unused old)
        · exact same
      · rintro rfl
        exact ⟨⟨id, mem_update_push.mpr (.inr ⟨rfl, rfl⟩)⟩, serial⟩
    rw [only]
    exact stands

/-! ### Runs -/

theorem waiting_update {s s' : State} {port : Option Port}
    (table : s'.table = update s.table id port) : waiting s' = update (waiting s) id
      ((port.elim [] Port.msgQueue).filter fun e => e.serial.isSome) := by
  funext other
  unfold waiting
  rw [table]
  by_cases same : other = id
  · subst same
    rw [update_self, update_self]
  · rw [update_of_ne same, update_of_ne same]

theorem waiting_of_found {s : State} {port : Port} (found : s.table id = some port) :
    waiting s id = port.msgQueue.filter fun e => e.serial.isSome := by
  rw [waiting, found, Option.elim_some]

theorem portTeardown_waiting (queue : List Entry) :
    portTeardown queue = releaseLines releaseEntryPayload
        (queue.filter fun e => e.serial.isSome) := by
  induction queue with
  | nil => rfl
  | cons entry _ ih =>
    rw [portTeardown, flatMap_cons, ← portTeardown, ih]
    rcases serial : entry.serial with _ | k
    · simp [entryLines, serial]
    · simp [releaseLines, serial]

/-- The posts and their ledgers of a whole state. -/
abbrev Accounted (s : State) : Prop :=
  Tracked (waiting s) s.posts s.ledger

theorem initial_accounted : Accounted initial where
  numbered := by intro id entry k present; cases present
  distinct := by intro id; exact nodup_nil
  apart := by intro id other first second k present; cases present
  past := by intro k event member; cases member
  standing := by intro k call made; cases made

theorem Tracked.retouched {s s' : State} {port : Port} (accounted : Accounted s)
    (table : s'.table = update s.table id (some port))
    (same : port.msgQueue.filter (fun e => e.serial.isSome) = waiting s id)
    (posts : s'.posts = s.posts) (ledger : s'.ledger = s.ledger) : Accounted s' := by
  unfold Accounted
  rw [waiting_update table, Option.elim_some, same, posts, ledger, update_eq_self id (waiting s)]
  exact accounted

theorem Tracked.released {s s' : State} {port : Option Port} (batch : List Entry) (release : Entry →
    List Event) (accounted : Accounted s) (table : s'.table = update s.table id port)
    (split : waiting s id = batch ++ (port.elim [] Port.msgQueue).filter fun e => e.serial.isSome)
    (ways : ∀ entry, Release entry (release entry)) (posts : s'.posts = s.posts)
    (ledger : s'.ledger = s.ledger ++ releaseLines release batch) : Accounted s' := by
  unfold Accounted
  rw [waiting_update table, posts, ledger]
  exact Tracked.dropped accounted split ways

theorem tryConsume_cases (port : Port) :
    (∃ entry rest, port.msgQueue = entry :: rest ∧ tryConsume port = ({ port with
        msgQueue := rest, msgCount := port.msgCount - 1 }, .message entry)) ∨
    ∃ port' found, tryConsume port = (port', found) ∧
      port'.msgQueue = port.msgQueue ∧ ∀ entry, found ≠ .message entry := by
  unfold tryConsume
  split
  · next entry rest queueEq => exact .inl ⟨entry, rest, queueEq, rfl⟩
  split
  · exact .inr ⟨_, _, rfl, rfl, by intro entry; nofun⟩
  split <;> exact .inr ⟨_, _, rfl, rfl, by intro entry; nofun⟩

section

variable {s : State}

theorem receive_accounted (accounted : Accounted s) (id : Nat)
    (pid : Int) (ubuf : Pointer) : Accounted (receive s id pid ubuf) := by
  unfold receive
  split
  · exact accounted
  next port found =>
  split
  · exact accounted
  have here := waiting_of_found found
  rcases tryConsume_cases port with
    ⟨entry, rest, queueEq, consumed⟩ |
    ⟨port', left, consumed, sameQueue, notMessage⟩
  · rw [consumed]
    rw [queueEq] at here
    rcases serial : entry.serial with _ | k
    · -- the message of another sender
      rw [filter_cons_of_neg (by simp [serial])] at here
      refine Tracked.retouched accounted rfl here.symm rfl ?_
      simp [entryLines, serial]
    · rw [filter_cons_of_pos (by simp [serial])] at here
      let delivered := fun entry : Entry => (receiveToUser entry.msg entry.payloadOwned ubuf).2
      refine Tracked.released [entry] delivered accounted rfl here (fun _ => .delivery ubuf) rfl ?_
      simp [releaseLines, delivered]
  · rw [consumed]
    cases left with
    | message entry => exact absurd rfl (notMessage entry)
    | notification | nothing =>
      exact Tracked.retouched accounted rfl (by rw [here, sameQueue]) rfl rfl

theorem lookup_table {call : PostCall} {port : Port}
    (found : lookup s call = some port) : s.table call.portId = some port := by
  unfold lookup at found
  split at found
  · exact found
  · exact (Option.filter_eq_some_iff.mp found).1

theorem post_accounted (accounted : Accounted s)
    (call : PostCall) : Accounted (exec s (.post call)) := by
  have way := sysPost_cases s call
  simp only [exec]
  generalize sysPost s call = result at way ⊢
  obtain ⟨port, _, _⟩ := result
  cases way with
  | closed port _ same stands =>
    have unchanged : store s.table call.portId port = s.table := by
      rcases same with rfl | same
      · rfl
      rcases port with _ | port
      · rfl
      · rw [store, ← lookup_table same.symm]
        exact update_eq_self _ _
    rw [unchanged]
    exact Tracked.posted_closed accounted stands
  | opened port entry _ found serial stands =>
    have here := waiting_of_found (lookup_table found)
    have after : (port.push entry).msgQueue.filter (fun e => e.serial.isSome) =
        waiting s call.portId ++ [entry] := by
      rw [here, Port.push, filter_append]
      simp [serial]
    have opened := Tracked.posted_opened call.portId accounted serial stands
    rw [← after] at opened
    unfold Accounted
    rw [waiting_update rfl]
    exact opened

theorem exec_accounted (accounted : Accounted s) (label : Label) : Accounted (exec s label) := by
  cases label with
  | create =>
    simp only [exec]
    split
    · next free =>
      refine Tracked.retouched accounted rfl ?_ rfl rfl
      rw [waiting, free]
      rfl
    · exact accounted
  | destroy =>
    simp only [exec]
    split
    · exact accounted
    next port found =>
    have here := waiting_of_found found
    refine Tracked.released _ releaseEntryPayload accounted rfl
      (here.trans (append_nil _).symm) (fun _ => .drain) rfl ?_
    rw [portTeardown_waiting]
  | post call => exact post_accounted accounted call
  | lend =>
    simp only [exec]
    split
    · exact accounted
    next port found =>
    refine Tracked.retouched accounted rfl ?_ rfl rfl
    rw [waiting_of_found found]
    unfold enqueueAsync
    split
    · rfl
    · simp
  | notify =>
    simp only [exec]
    split
    · exact accounted
    · next port found => exact Tracked.retouched accounted rfl (waiting_of_found found).symm rfl rfl
  | receive id pid ubuf => exact receive_accounted accounted id pid ubuf

theorem reachable_accounted (reachable : Reachable s) : Accounted s := by
  obtain ⟨_, run⟩ := reachable
  refine run.invariant ?_ initial_accounted
  rintro first label last accounted rfl
  exact exec_accounted accounted label

end

/-! ### The ledgers that keep the contract -/

section

variable {events : List Event}

theorem Standing.freesOwn (standing : Standing held events) : FreesOwn events := by
  intro before buffer after eventsEq
  cases standing with
  | quiet => simp at eventsEq
  | carried =>
    cases before with
    | nil => cases eventsEq
    | cons => simp at eventsEq
  | settled =>
    cases before with
    | nil => cases eventsEq
    | cons _ before =>
      cases before with
      | nil =>
        cases eventsEq
        simp
      | cons => simp at eventsEq

theorem Standing.freesAll (standing : Standing held events)
    (ended : ∀ entry, ¬ held entry) : FreesAll events := by
  intro buffer allocated
  cases standing with
  | quiet => cases allocated
  | carried _ _ present =>
    obtain ⟨entry, isHeld⟩ := present
    exact absurd isHeld (ended entry)
  | settled =>
    simp only [mem_cons, Event.kmalloc.injEq, reduceCtorEq, not_mem_nil, or_false] at allocated
    simp [allocated]

theorem Foreign.not_freesOwn (foreign : Foreign events) : ¬ FreesOwn events := by
  obtain ⟨⟨buffer, freed⟩, unallocated⟩ := foreign
  intro own
  obtain ⟨before, after, eventsEq⟩ := append_of_mem freed
  have allocated := (own before buffer after eventsEq).1
  refine unallocated buffer ?_
  rw [eventsEq]
  exact mem_append_left _ allocated

end

theorem heldBy_inFlight {s : State} {k : Nat}
    (held : HeldBy (waiting s) k entry) : InFlight s k := by
  obtain ⟨⟨id, present⟩, own⟩ := held
  have inQueue := (mem_filter.mp present).1
  rcases found : s.table id with _ | port
  · rw [found] at inQueue
    cases inQueue
  · rw [found] at inQueue
    exact ⟨id, entry, ⟨port, found, inQueue⟩, own⟩

/-- In every state the posts can lead to, the ledger of a post frees only
what was allocated for its message, each buffer once, and all of it once the
message is gone, exactly when the message read from user memory does not
carry a payload pointer with size zero. -/
theorem post_payload_freed_once (s : State) (reachable : Reachable s) (k : Nat)
    (call : PostCall) (made : s.posts[k]? = some call) : (FreesOwn (ledgerOf s.ledger k) ∧
    (¬ InFlight s k → FreesAll (ledgerOf s.ledger k))) ↔ PayloadSized call := by
  obtain ⟨sizedStanding, unsizedForeign⟩ := (reachable_accounted reachable).standing made
  constructor
  · rintro ⟨own, _⟩
    by_contra unsized
    exact (unsizedForeign unsized).not_freesOwn own
  · intro sized
    have standing := sizedStanding sized
    refine ⟨standing.freesOwn, fun ended => standing.freesAll ?_⟩
    intro entry held
    exact ended (heldBy_inFlight held)

/-- A post of a message with a payload and one of a message without, received
and drained. -/
def bothSized : List Label :=
  let msg : Message := ⟨0, 0, 0, 7, 0, 0, 0, 0, 16, 0x5000⟩
  let call : PostCall :=
    ⟨1, none, some msg, true, 0xD0001000, true, false, some (3, 4), true⟩
  [.create 1 1 3, .post call, .post { call with
    gen := some 1, copied := some { msg with payload := 0 } },
    .receive 1 3 0x9000, .destroy 1]

/-- A user pointer with size zero, posted to a live port. -/
def pointerWithoutSize : PostCall :=
  ⟨1, none, some ⟨0, 0, 0, 7, 0, 0, 0, 0, 0, 0x5000⟩, true, 0, true, false, some (3, 4), true⟩

theorem reachable_foldl (labels : List Label) : Reachable (labels.foldl exec initial) := by
  refine ⟨labels, ?_⟩
  generalize initial = s
  induction labels generalizing s with
  | nil => exact .nil s
  | cons label _ ih => exact .cons rfl (ih (exec s label))

theorem post_payload_freed_once_bothSized :
    FreesOwn (ledgerOf (bothSized.foldl exec initial).ledger 0) ∧ ledgerOf
      (bothSized.foldl exec initial).ledger 0 = [.kmalloc 0xD0001000, .kfree 0xD0001000] := by
  refine ⟨?_, by decide⟩
  refine ((post_payload_freed_once (bothSized.foldl exec initial)
    (reachable_foldl bothSized) 0 _ rfl).mpr ?_).1
  intro msg copied _
  cases copied
  decide

/-- The post of a pointer without a size frees the user's pointer, and frees
it once more when the port is destroyed. -/
theorem post_frees_user_pointer : ∃ s, Reachable s ∧ s.posts[0]? = some pointerWithoutSize ∧
      ledgerOf s.ledger 0 = [.kfree 0x5000, .kfree 0x5000] ∧ ¬ FreesOwn (ledgerOf s.ledger 0) := by
  refine ⟨[.create 1 1 3, .post pointerWithoutSize, .destroy 1].foldl exec
    initial, reachable_foldl _, rfl, by decide, ?_⟩
  intro own
  have allocated := (own [] 0x5000 [.kfree 0x5000] (by decide)).1
  cases allocated

end MainDob.Kernel.Post
