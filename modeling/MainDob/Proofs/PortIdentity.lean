/-
Purpose: Over every interleaving of creates, destroys, gets and puts, a port
  id is on the free list, due back, or owned by exactly one live struct; the
  reference count of a struct counts its holders; and a checked get finds the
  incarnation its generation names or nothing.
Main exports: Live, Ownership, port_identity
-/
import MainDob.Kernel.Port
import Mathlib.Data.List.Perm.Basic
import Mathlib.Data.List.Nodup

namespace MainDob.Kernel.Port

open Function (update)
open List Option Function

/-! ### Where ids and references are -/

/-- The structs that belong to an incarnation: handed out by the heap and not
waiting on the recycle stack. -/
def liveList (s : State) : List Addr :=
  s.allocated.filter (fun p => decide (p ∉ s.recycle))

/-- The struct belongs to an incarnation. -/
def Live (s : State) (p : Addr) : Prop := p ∈ liveList s

variable {p : Addr}

theorem live_iff {s : State} : Live s p ↔ p ∈ s.allocated ∧ p ∉ s.recycle := by
  simp [Live, liveList]

/-- The id a holder is about to give back. -/
def Holder.due : Holder → Option Nat
  | .giveBack id _ => some id
  | _ => none

/-- Ids in the hands of a teardown. -/
def dueIds (s : State) : List Nat := s.pool.filterMap (fun entry => entry.2.due)

/-- Ids owned by live structs. -/
def liveIds (s : State) : List Nat := (liveList s).map (fun p => (s.heap p).id)

/-- Number of references to `p` in the hands of threads. -/
def refsTo (s : State) (p : Addr) : Nat :=
  s.pool.countP (fun entry => decide (entry.2.counted = some p))

/-- Number of teardowns of `p` that are due. -/
def tornCount (s : State) (p : Addr) : Nat :=
  s.pool.countP (fun entry => decide (entry.2 = .torn p))

/-- Every id is in at most one place, and the table names exactly the active
live structs. -/
structure Ownership (s : State) : Prop where
  alloc_nodup : s.allocated.Nodup
  recycle_nodup : s.recycle.Nodup
  recycle_sub : ∀ p ∈ s.recycle, p ∈ s.allocated
  ids : (s.freelist ++ (dueIds s ++ liveIds s)).Nodup
  table_iff : ∀ id p, s.table id = some p ↔
    Live s p ∧ (s.heap p).id = id ∧ (s.heap p).state = .active

/-- What a holder relies on: a reference on its incarnation, the reference of a
table slot on a closed struct, a teardown on a count of zero, and an id that is
due back on an incarnation that is over. -/
def Held (s : State) : Holder → Prop
  | .ref p serial => Live s p ∧ (s.heap p).serial = serial
  | .slot p => Live s p ∧ (s.heap p).state = .closed
  | .torn p => Live s p ∧ (s.heap p).refcount = 0 ∧
      (s.heap p).serial ∈ s.zeroed
  | .giveBack id serial => serial ∈ s.destroyed ∧ serial ∈ s.zeroed ∧
      ∃ gen, s.history[serial]? = some ⟨id, gen⟩

/-- Every reference in hand is counted, and a teardown is due at most once. -/
structure Counts (s : State) : Prop where
  held : ∀ t h, (t, h) ∈ s.pool → Held s h
  torn_once : ∀ p, tornCount s p ≤ 1
  count : ∀ p, Live s p → refcountSaturated ≤ (s.heap p).refcount ∨
      (s.heap p).refcount = refsTo s p + (if (s.heap p).state = .active then 1 else 0)

/-- Which incarnations the structs stand for. -/
structure History (s : State) : Prop where
  live_recorded : ∀ p, Live s p → s.history[(s.heap p).serial]? =
    some ⟨(s.heap p).id, (s.heap p).generation⟩
  closed_destroyed : ∀ p, Live s p → (s.heap p).state = .closed → (s.heap p).serial ∈ s.destroyed
  accounted : ∀ serial < s.history.length,
    (∃ p, Live s p ∧ (s.heap p).serial = serial) ∨ (serial ∈ s.destroyed ∧ serial ∈ s.zeroed)

/-- While fewer than `2 ^ 32` ports have been created, no two incarnations
share an id and a generation. -/
structure Stamps (s : State) : Prop where
  generation_le : ∀ id, s.generation id ≤ s.history.length
  stamped_le : ∀ incarnation ∈ s.history, incarnation.generation ≤ s.generation incarnation.id
  nodup : s.history.Nodup

/-- The invariant of the port table. -/
structure Inv (s : State) : Prop where
  ownership : Ownership s
  counts : Counts s
  history : History s
  stamps : s.history.length < 2 ^ 32 → Stamps s

theorem inv_initial : Inv initial where
  ownership := {
    alloc_nodup := nodup_nil
    recycle_nodup := nodup_nil
    recycle_sub := by simp [initial]
    ids := by
      have range : ((List.range (maxPorts - 1)).map (· + 1)).Nodup :=
        nodup_range.map (fun _ _ same => Nat.succ.inj same)
      simpa [initial, dueIds, liveIds, liveList] using range
    table_iff := by simp [initial, Live, liveList] }
  counts := {
    held := by simp [initial]
    torn_once := by simp [initial, tornCount]
    count := by simp [initial, Live, liveList] }
  history := {
    live_recorded := by simp [initial, Live, liveList]
    closed_destroyed := by simp [initial, Live, liveList]
    accounted := by simp [initial] }
  stamps := fun _ => {
    generation_le := by simp [initial]
    stamped_le := by simp [initial]
    nodup := nodup_nil }

/-! ### Consequences of the invariant -/

variable {id : Nat} {t : Tid}

theorem Held.live {s : State} {h : Holder} (held : Held s h) (counted : h.counted = some p) :
    Live s p := by
  cases h with
  | ref | slot =>
    cases counted
    exact held.1
  | torn | giveBack => cases counted

namespace Inv

variable {s : State}

theorem live_of_table (inv : Inv s) (found : s.table id = some p) : Live s p :=
  ((inv.ownership.table_iff id p).mp found).1

theorem torn_unreferenced (inv : Inv s) (due : (t, .torn p) ∈ s.pool) :
    refsTo s p = 0 ∧ (s.heap p).state = .closed := by
  obtain ⟨live, zero, _⟩ := inv.counts.held t _ due
  have counted := inv.counts.count p live
  rw [zero] at counted
  have unsaturated : ¬ refcountSaturated ≤ 0 := by decide
  rcases counted with saturated | exact_
  · exact absurd saturated unsaturated
  cases state : (s.heap p).state with
  | closed =>
    rw [state] at exact_
    exact ⟨by simpa using exact_.symm, rfl⟩
  | active =>
    rw [state] at exact_
    simp at exact_

theorem refcount_pos (inv : Inv s) {h : Holder} (member : (t, h) ∈ s.pool)
    (counted : h.counted = some p) : 0 < (s.heap p).refcount := by
  have live := (inv.counts.held t h member).live counted
  have positive : 0 < refsTo s p := by
    unfold refsTo
    rw [countP_pos_iff]
    exact ⟨(t, h), member, by simp [counted]⟩
  rcases inv.counts.count p live with saturated | exact_
  · have large : 0 < refcountSaturated := by decide
    omega
  · omega

end Inv

/-! ### Steps that move no struct -/

/-- From `s` to `s'` no struct changes hands and none changes its identity. -/
structure SameStructs (s s' : State) : Prop where
  allocated : s'.allocated = s.allocated
  recycle : s'.recycle = s.recycle
  freelist : s'.freelist = s.freelist
  generation : s'.generation = s.generation
  history : s'.history = s.history
  due : dueIds s' = dueIds s
  id : ∀ q, (s'.heap q).id = (s.heap q).id
  stamp : ∀ q, (s'.heap q).generation = (s.heap q).generation
  serial : ∀ q, (s'.heap q).serial = (s.heap q).serial

namespace SameStructs

variable {s s' : State}

section

variable (same : SameStructs s s')
include same

theorem live (p : Addr) : Live s' p ↔ Live s p := by
  rw [live_iff, live_iff, same.allocated, same.recycle]

theorem liveIds : liveIds s' = liveIds s := by
  unfold Port.liveIds liveList
  rw [same.allocated, same.recycle]
  exact map_congr_left (fun q _ => same.id q)

theorem ownership (own : Ownership s) (table : ∀ id p, s'.table id = some p ↔
      Live s p ∧ (s.heap p).id = id ∧ (s'.heap p).state = .active) : Ownership s' where
  alloc_nodup := by
    rw [same.allocated]
    exact own.alloc_nodup
  recycle_nodup := by
    rw [same.recycle]
    exact own.recycle_nodup
  recycle_sub := by
    rw [same.allocated, same.recycle]
    exact own.recycle_sub
  ids := by
    rw [same.freelist, same.due, same.liveIds]
    exact own.ids
  table_iff := by
    intro id p
    rw [same.live, same.id]
    exact table id p

theorem held {h : Holder} (held : Held s h) (closed : ∀ q, (s.heap q).state = .closed →
    (s'.heap q).state = .closed) (zero : ∀ q, h = .torn q → (s'.heap q).refcount = 0)
    (destroyed : ∀ serial ∈ s.destroyed, serial ∈ s'.destroyed)
    (zeroed : ∀ serial ∈ s.zeroed, serial ∈ s'.zeroed) : Held s' h := by
  cases h with
  | ref q => exact ⟨(same.live q).mpr held.1, (same.serial q).trans held.2⟩
  | slot q => exact ⟨(same.live q).mpr held.1, closed q held.2⟩
  | torn q =>
    refine ⟨(same.live q).mpr held.1, zero q rfl, ?_⟩
    rw [same.serial]
    exact zeroed _ held.2.2
  | giveBack =>
    refine ⟨destroyed _ held.1, zeroed _ held.2.1, ?_⟩
    rw [same.history]
    exact held.2.2

theorem recorded (history : History s) (p : Addr) (alive : Live s' p) :
    s'.history[(s'.heap p).serial]? = some ⟨(s'.heap p).id, (s'.heap p).generation⟩ := by
  rw [same.history, same.serial, same.id, same.stamp]
  exact history.live_recorded p ((same.live p).mp alive)

theorem accounted (history : History s) (destroyed : ∀ serial ∈ s.destroyed, serial ∈ s'.destroyed)
    (zeroed : ∀ serial ∈ s.zeroed, serial ∈ s'.zeroed) :
    ∀ serial < s'.history.length, (∃ p, Live s' p ∧ (s'.heap p).serial = serial) ∨
        (serial ∈ s'.destroyed ∧ serial ∈ s'.zeroed) := by
  intro serial bound
  rw [same.history] at bound
  rcases history.accounted serial bound with ⟨p, alive, mine⟩ | ⟨dead, zero⟩
  · exact Or.inl ⟨p, (same.live p).mpr alive, (same.serial p).trans mine⟩
  · exact Or.inr ⟨destroyed serial dead, zeroed serial zero⟩

theorem stamps (stamps : s.history.length < 2 ^ 32 → Stamps s) :
    s'.history.length < 2 ^ 32 → Stamps s' := by
  intro few
  rw [same.history] at few
  obtain ⟨bounded, stamped, nodup⟩ := stamps few
  refine ⟨?_, ?_, ?_⟩
  · rw [same.generation, same.history]
    exact bounded
  · rw [same.generation, same.history]
    exact stamped
  · rw [same.history]
    exact nodup

end

end SameStructs

variable {recycle allocated : List Addr}

theorem Stamps.stamp {s : State} (stamps : Stamps s) {owner : Int}
    {ids : List Nat} (few : s.history.length + 1 < 2 ^ 32) :
    Stamps (publish s owner id ids p recycle allocated) := by
  obtain ⟨bounded, stamped, nodup⟩ := stamps
  have small := bounded id
  have noWrap : (s.generation id + 1) % 2 ^ 32 = s.generation id + 1 := Nat.mod_eq_of_lt (by omega)
  refine ⟨?_, ?_, ?_⟩
  · intro other
    simp only [publish, noWrap, length_append, length_singleton]
    by_cases same : other = id
    · subst same
      rw [update_self]
      omega
    · rw [update_of_ne same]
      have := bounded other
      omega
  · intro incarnation member
    simp only [publish, noWrap] at member ⊢
    by_cases same : incarnation.id = id
    · rw [same, update_self]
      rcases mem_append.mp member with old | new
      · have before := stamped incarnation old
        rw [same] at before
        omega
      · cases mem_singleton.mp new
        exact le_refl _
    · rw [update_of_ne same]
      rcases mem_append.mp member with old | new
      · exact stamped incarnation old
      · rw [mem_singleton.mp new] at same
        exact absurd rfl same
  · simp only [publish, noWrap]
    rw [nodup_append]
    refine ⟨nodup, nodup_singleton _, ?_⟩
    intro old oldMember new newMember equal
    rw [mem_singleton] at newMember
    have before := stamped old oldMember
    rw [equal, newMember] at before
    exact absurd before (Nat.not_succ_le_self _)

theorem countP_erase_add {entry : Tid × Holder} {pool : List (Tid × Holder)}
    (member : entry ∈ pool) (test : Tid × Holder → Bool) :
    pool.countP test = (pool.erase entry).countP test + (if test entry then 1 else 0) := by
  rw [(perm_cons_erase member).countP_eq, countP_cons]

theorem liveList_perm {large small : State} (largeNodup : large.allocated.Nodup)
    (smallNodup : small.allocated.Nodup) (live : Live large p) (liveOf : ∀ q, Live small q ↔
    Live large q ∧ q ≠ p) : (liveList large).Perm (p :: liveList small) := by
  have apart : p ∉ liveList small := fun inside => ((liveOf p).mp inside).2 rfl
  have nodup : (liveList large).Nodup := largeNodup.filter _
  have nodup' : (p :: liveList small).Nodup := nodup_cons.mpr ⟨apart, smallNodup.filter _⟩
  rw [perm_ext_iff_of_nodup nodup nodup']
  intro q
  rw [mem_cons]
  change Live large q ↔ q = p ∨ Live small q
  rw [liveOf]
  by_cases equal : q = p
  · subst equal
    exact ⟨fun _ => Or.inl rfl, fun _ => live⟩
  · simp [equal]

theorem filterMap_erase_of_none {entry : Tid × Holder} (undue : entry.2.due = none)
    (pool : List (Tid × Holder)) : (pool.erase entry).filterMap (fun entry => entry.2.due) =
      pool.filterMap (fun entry => entry.2.due) := by
  induction pool with
  | nil => rfl
  | cons _ _ ih =>
    rw [erase_cons]
    split
    · next equal =>
        rw [beq_iff_eq] at equal
        rw [equal, filterMap_cons]
        simp only [undue]
    · simp only [filterMap_cons, ih]

theorem heap_field {α : Type} (field : IpcPort → α) {heap : Addr → IpcPort}
    {port : IpcPort} (same : field port = field (heap p)) (q : Addr) :
    field (update heap p port q) = field (heap q) := by
  by_cases here : q = p
  · subst here
    rw [update_self, same]
  · rw [update_of_ne here]

namespace Inv

variable {s : State}

section

variable (inv : Inv s)
include inv

/-- The locked section of a destroy: the slot's reference changes hands. -/
theorem destroy (t : Tid) (id : Nat) : Inv (ipcPortDestroy s t id) := by
  unfold ipcPortDestroy
  split
  swap
  · exact inv
  split
  · exact inv
  rename_i p found
  obtain ⟨live, idEq, active⟩ := (inv.ownership.table_iff id p).mp found
  set port : IpcPort := { s.heap p with state := .closed } with portEq
  set s' : State := { s with
    heap := update s.heap p port
    table := update s.table id none
    pool := (t, .slot p) :: s.pool
    destroyed := (s.heap p).serial :: s.destroyed } with s'Eq
  have heapSelf : s'.heap p = port := update_self ..
  have heapOther : ∀ q, q ≠ p → s'.heap q = s.heap q := fun q different => update_of_ne different ..
  have poolEq : s'.pool = (t, .slot p) :: s.pool := rfl
  have same : SameStructs s s' := ⟨rfl, rfl, rfl, rfl, rfl, rfl,
    heap_field IpcPort.id rfl, heap_field IpcPort.generation rfl, heap_field IpcPort.serial rfl⟩
  have countOf := heap_field IpcPort.refcount (show port.refcount = (s.heap p).refcount from rfl)
  have shut : ∀ q, (s.heap q).state = .closed → (s'.heap q).state = .closed := by
    intro q closed
    by_cases equal : q = p
    · rw [equal, heapSelf]
    · rwa [heapOther q equal]
  refine ⟨same.ownership inv.ownership ?_, ⟨?_, ?_, ?_⟩,
    ⟨same.recorded inv.history, ?_, same.accounted inv.history
      (fun _ dead => mem_cons_of_mem _ dead) (fun _ zero => zero)⟩, same.stamps inv.stamps⟩
  · intro other q
    have before := inv.ownership.table_iff other q
    change update s.table id none other = some q ↔ _
    by_cases here : other = id
    · subst here
      rw [update_self]
      refine ⟨fun impossible => (nomatch impossible), ?_⟩
      rintro ⟨liveQ, idQ, activeQ⟩
      by_cases equal : q = p
      · subst equal
        rw [heapSelf] at activeQ
        cases activeQ
      · rw [heapOther q equal] at activeQ
        rw [before.mpr ⟨liveQ, idQ, activeQ⟩] at found
        exact absurd (Option.some.inj found) equal
    · rw [update_of_ne here, before]
      have different : (s.heap q).id = other → q ≠ p := by
        rintro idQ rfl
        exact here (idQ.symm.trans idEq)
      refine and_congr_right (fun _ => and_congr_right (fun idQ => ?_))
      rw [heapOther q (different idQ)]
  · intro u h member
    rcases mem_cons.mp member with new | old
    · cases new
      exact ⟨(same.live p).mpr live, by rw [heapSelf]⟩
    have held := inv.counts.held u h old
    refine same.held held shut (fun q isTorn => ?_) (fun _ dead => mem_cons_of_mem _ dead)
      fun _ zero => zero
    rw [isTorn] at held
    exact (countOf q).trans held.2.1
  · intro q
    simpa [tornCount, poolEq] using inv.counts.torn_once q
  · intro q liveQ
    have before := inv.counts.count q ((same.live q).mp liveQ)
    by_cases equal : q = p
    · subst equal
      rw [active] at before
      rw [heapSelf]
      simpa [refsTo, poolEq, Holder.counted, portEq] using before
    · have other : ¬ p = q := fun equal' => equal equal'.symm
      rw [heapOther q equal]
      simpa [refsTo, poolEq, Holder.counted, other] using before
  · intro q liveQ closed
    rw [same.serial]
    by_cases equal : q = p
    · subst equal
      exact mem_cons_self
    · rw [heapOther q equal] at closed
      exact mem_cons_of_mem _ (inv.history.closed_destroyed q ((same.live q).mp liveQ) closed)

theorem take (t : Tid) (live : Live s p)
    (active : (s.heap p).state = .active) : Inv (takeRef s t (some p)) := by
  set port : IpcPort := { s.heap p with refcount := refcountInc (s.heap p).refcount } with portEq
  set s' : State := { s with
    heap := update s.heap p port
    pool := (t, .ref p (s.heap p).serial) :: s.pool } with s'Eq
  change Inv s'
  have heapSelf : s'.heap p = port := update_self ..
  have heapOther : ∀ q, q ≠ p → s'.heap q = s.heap q := fun q different => update_of_ne different ..
  have poolEq : s'.pool = (t, .ref p (s.heap p).serial) :: s.pool := rfl
  have same : SameStructs s s' := ⟨rfl, rfl, rfl, rfl, rfl, rfl,
    heap_field IpcPort.id rfl, heap_field IpcPort.generation rfl, heap_field IpcPort.serial rfl⟩
  have stateOf : ∀ q, (s'.heap q).state = (s.heap q).state := heap_field IpcPort.state rfl
  refine ⟨same.ownership inv.ownership ?_, ⟨?_, ?_, ?_⟩,
    ⟨same.recorded inv.history, ?_, same.accounted inv.history
      (fun _ dead => dead) (fun _ zero => zero)⟩, same.stamps inv.stamps⟩
  · intro id q
    rw [stateOf]
    exact inv.ownership.table_iff id q
  · intro u h member
    rcases mem_cons.mp member with new | old
    · cases new
      exact ⟨(same.live p).mpr live, same.serial p⟩
    have held := inv.counts.held u h old
    refine same.held held (fun q closed => (stateOf q).trans closed) (fun q isTorn => ?_)
      (fun _ dead => dead) fun _ zero => zero
    subst isTorn
    -- the port is active, so the closed struct of a teardown is another one
    have different : q ≠ p := by
      rintro rfl
      rw [(inv.torn_unreferenced old).2] at active
      cases active
    rw [heapOther q different]
    exact held.2.1
  · intro q
    simpa [tornCount, poolEq] using inv.counts.torn_once q
  · intro q liveQ
    have before := inv.counts.count q ((same.live q).mp liveQ)
    by_cases equal : q = p
    · subst equal
      have added : refsTo s' q = refsTo s q + 1 := by simp [refsTo, poolEq, Holder.counted]
      rw [heapSelf, added]
      change refcountSaturated ≤ refcountInc (s.heap q).refcount ∨
        refcountInc (s.heap q).refcount = _
      unfold refcountInc
      split
      · next saturated => exact Or.inl saturated
      next unsaturated =>
        rcases before with saturated | exact_
        · exact absurd saturated unsaturated
        right
        rw [active] at exact_
        simp only [if_true] at exact_
        omega
    · have other : ¬ p = q := fun equal' => equal equal'.symm
      rw [heapOther q equal]
      simpa [refsTo, poolEq, Holder.counted, other] using before
  · intro q liveQ closed
    rw [stateOf] at closed
    rw [same.serial]
    exact inv.history.closed_destroyed q ((same.live q).mp liveQ) closed

theorem found_of_get (found : ipcPortGet s id = some p) :
    Live s p ∧ (s.heap p).id = id ∧ (s.heap p).state = .active := by
  unfold ipcPortGet at found
  split at found
  swap
  · cases found
  split at found
  swap
  · cases found
  next q occupied =>
    split at found
    · cases found
    · cases found
      exact (inv.ownership.table_iff id p).mp occupied

theorem found_of_getChecked {gen : Nat} (found : ipcPortGetChecked s id gen = some p) :
    (Live s p ∧ (s.heap p).id = id ∧ (s.heap p).state = .active) ∧ (s.heap p).generation = gen := by
  unfold ipcPortGetChecked at found
  split at found
  · next q plain =>
      split at found
      · next stamped =>
          cases found
          exact ⟨inv.found_of_get plain, stamped⟩
      · cases found
  · cases found

theorem get (t : Tid) (id : Nat) : Inv (takeRef s t (ipcPortGet s id)) := by
  cases found : ipcPortGet s id with
  | none => exact inv
  | some =>
    obtain ⟨live, _, active⟩ := inv.found_of_get found
    exact inv.take t live active

theorem getChecked (t : Tid) (id gen : Nat) : Inv (takeRef s t (ipcPortGetChecked s id gen)) := by
  cases found : ipcPortGetChecked s id gen with
  | none => exact inv
  | some =>
    obtain ⟨⟨live, _, active⟩, _⟩ := inv.found_of_getChecked found
    exact inv.take t live active

section

variable {h : Holder} (member : (t, h) ∈ s.pool) (counted : h.counted = some p)
include member counted

theorem drop_count : (refcountSaturated ≤ (s.heap p).refcount ∧ refcountDec
        (s.heap p).refcount = ((s.heap p).refcount, false)) ∨ ∃ others, refsTo s p = others + 1 ∧
      refcountDec (s.heap p).refcount = (others + (if (s.heap p).state = .active then 1 else 0),
            decide (others = 0 ∧ (s.heap p).state = .closed)) := by
  have live := (inv.counts.held t h member).live counted
  unfold refcountDec
  by_cases saturated : refcountSaturated ≤ (s.heap p).refcount
  · left
    rw [if_pos saturated]
    exact ⟨saturated, rfl⟩
  right
  have exact_ := (inv.counts.count p live).resolve_left saturated
  have removed := countP_erase_add member (fun entry => decide (entry.2.counted = some p))
  simp only [counted, decide_true, if_true] at removed
  refine ⟨_, removed, ?_⟩
  unfold refsTo at exact_
  rw [removed] at exact_
  rw [if_neg saturated, exact_]
  cases (s.heap p).state with
  | active => simp
  | closed =>
    simp only [reduceCtorEq, if_false, add_zero, Nat.succ_ne_zero,
      Nat.add_sub_cancel, and_true, Prod.mk.injEq, true_and,
      decide_eq_decide]
    omega

/-- A drop takes one reference away; the last one leaves a teardown due. -/
theorem drop : Inv (dropRef s t h p) := by
  have live := (inv.counts.held t h member).live counted
  have outcome := inv.drop_count member counted
  have undue : h.due = none := by
    cases h <;> first | rfl | cases counted
  set last := (refcountDec (s.heap p).refcount).2 with lastEq
  set port : IpcPort :=
    { s.heap p with refcount := (refcountDec (s.heap p).refcount).1 } with portEq
  set s' : State := dropRef s t h p with s'Eq
  have heapSelf : s'.heap p = port := update_self ..
  have heapOther : ∀ q, q ≠ p → s'.heap q = s.heap q := fun q different => update_of_ne different ..
  have poolEq : s'.pool = if last then (t, .torn p) :: s.pool.erase (t, h)
      else s.pool.erase (t, h) := rfl
  have zeroedEq : s'.zeroed = if last then (s.heap p).serial :: s.zeroed else s.zeroed := rfl
  have dueEq : dueIds s' = dueIds s := by
    unfold dueIds
    rw [poolEq, ← @filterMap_erase_of_none (t, h) undue s.pool]
    cases last <;> rfl
  have same : SameStructs s s' := ⟨rfl, rfl, rfl, rfl, rfl, dueEq,
    heap_field IpcPort.id rfl, heap_field IpcPort.generation rfl, heap_field IpcPort.serial rfl⟩
  have stateOf : ∀ q, (s'.heap q).state = (s.heap q).state := heap_field IpcPort.state rfl
  have pooled : ∀ u g, (u, g) ∈ s'.pool → (u, g) ∈ s.pool ∨ (last = true ∧ g = .torn p) := by
    intro u g inside
    rw [poolEq] at inside
    cases lastCase : last with
    | false =>
      rw [lastCase] at inside
      exact Or.inl (mem_of_mem_erase inside)
    | true =>
      rw [lastCase] at inside
      rcases mem_cons.mp inside with new | old
      · cases new
        exact Or.inr ⟨rfl, rfl⟩
      · exact Or.inl (mem_of_mem_erase old)
  have zeroedSub : ∀ serial, serial ∈ s.zeroed → serial ∈ s'.zeroed := by
    intro serial inside
    rw [zeroedEq]
    cases last with
    | false => exact inside
    | true => exact mem_cons_of_mem _ inside
  -- a teardown of `p` that is due already would mean a count of zero
  have noTorn : tornCount s p = 0 := by
    unfold tornCount
    rw [countP_eq_zero]
    rintro ⟨u, g⟩ inside torn
    have tornEq : g = .torn p := of_decide_eq_true torn
    subst tornEq
    have positive := inv.refcount_pos member counted
    rw [(inv.counts.held u _ inside).2.1] at positive
    exact absurd positive (lt_irrefl 0)
  have refsOf : ∀ q, refsTo s q = refsTo s' q + (if p = q then 1 else 0) := by
    intro q
    have removed := countP_erase_add member (fun entry => decide (entry.2.counted = some q))
    have kept : refsTo s' q = (s.pool.erase (t, h)).countP
        (fun entry => decide (entry.2.counted = some q)) := by
      unfold refsTo
      rw [poolEq]
      cases last <;> simp [Holder.counted]
    rw [kept]
    unfold refsTo
    rw [removed, counted]
    simp
  have lastZero : last = true → port.refcount = 0 ∧ (s.heap p).state = .closed := by
    intro reached
    change (refcountDec (s.heap p).refcount).1 = 0 ∧ _
    rcases outcome with ⟨_, frozen⟩ | ⟨others, _, value⟩
    · rw [lastEq, frozen] at reached
      cases reached
    · rw [lastEq, value] at reached
      obtain ⟨none', closed⟩ := of_decide_eq_true reached
      rw [value, none', closed]
      exact ⟨rfl, rfl⟩
  refine ⟨same.ownership inv.ownership ?_, ⟨?_, ?_, ?_⟩,
    ⟨same.recorded inv.history, ?_, same.accounted inv.history
      (fun _ dead => dead) zeroedSub⟩, same.stamps inv.stamps⟩
  · intro id q
    rw [stateOf]
    exact inv.ownership.table_iff id q
  · intro u g inside
    rcases pooled u g inside with old | ⟨reached, rfl⟩
    · have held := inv.counts.held u g old
      refine same.held held (fun q closed => (stateOf q).trans closed) (fun q isTorn => ?_)
        (fun _ dead => dead) zeroedSub
      subst isTorn
      have different : q ≠ p := by
        rintro rfl
        have positive := inv.refcount_pos member counted
        have zero := held.2.1
        omega
      rw [heapOther q different]
      exact held.2.1
    · refine ⟨(same.live p).mpr live, by rw [heapSelf]; exact (lastZero reached).1, ?_⟩
      rw [same.serial, zeroedEq, reached]
      exact mem_cons_self
  · intro q
    have before := inv.counts.torn_once q
    have removed := countP_erase_add member (fun entry => decide (entry.2 = Holder.torn q))
    unfold tornCount at before noTorn ⊢
    rw [poolEq]
    by_cases equal : q = p
    · subst equal
      cases last with
      | false => simp only [Bool.false_eq_true, if_false]; omega
      | true => simp only [if_true, countP_cons, decide_true]; omega
    · have other : ¬ p = q := fun equal' => equal equal'.symm
      cases last with
      | false => simp only [Bool.false_eq_true, if_false]; omega
      | true =>
        simp only [if_true, countP_cons, Holder.torn.injEq, other,
          decide_false, Bool.false_eq_true, if_false]
        omega
  · intro q liveQ
    have before := inv.counts.count q ((same.live q).mp liveQ)
    have refs := refsOf q
    by_cases equal : q = p
    · subst equal
      rw [if_pos rfl] at refs
      rw [heapSelf]
      change refcountSaturated ≤ (refcountDec (s.heap q).refcount).1 ∨
        (refcountDec (s.heap q).refcount).1 = _
      rcases outcome with ⟨saturated, frozen⟩ | ⟨others, total, value⟩
      · rw [frozen]
        exact Or.inl saturated
      · have remaining : others = refsTo s' q := by omega
        rw [value, remaining]
        exact Or.inr rfl
    · rw [if_neg (fun equal' => equal equal'.symm), add_zero] at refs
      rw [heapOther q equal, ← refs]
      exact before
  · intro q liveQ closed
    rw [stateOf] at closed
    rw [same.serial]
    exact inv.history.closed_destroyed q ((same.live q).mp liveQ) closed

end

theorem ids_of_perm {s' : State} (perm : (s'.freelist ++ (dueIds s' ++ liveIds s')).Perm
      (s.freelist ++ (dueIds s ++ liveIds s))) : (s'.freelist ++ (dueIds s' ++ liveIds s')).Nodup :=
  perm.nodup_iff.mpr inv.ownership.ids

theorem retired (given : p ∈ s.allocated) (notRecycled : p ∉ s.recycle) :
    (portStructFree s t p).allocated.Nodup ∧ (portStructFree s t p).recycle.Nodup ∧
      (∀ q ∈ (portStructFree s t p).recycle, q ∈ (portStructFree s t p).allocated) ∧
      ∀ q, Live (portStructFree s t p) q ↔ Live s q ∧ q ≠ p := by
  obtain ⟨allocNodup, recycleNodup, recycleSub, _, _⟩ := inv.ownership
  simp only [live_iff, portStructFree]
  split
  · refine ⟨allocNodup, nodup_cons.mpr ⟨notRecycled, recycleNodup⟩, ?_, ?_⟩
    · intro q inside
      rcases mem_cons.mp inside with rfl | old
      · exact given
      · exact recycleSub q old
    · intro q
      rw [mem_cons, not_or]
      tauto
  · refine ⟨allocNodup.erase p, recycleNodup, ?_, ?_⟩
    · intro q inside
      rw [allocNodup.mem_erase_iff]
      refine ⟨?_, recycleSub q inside⟩
      rintro rfl
      exact notRecycled inside
    · intro q
      rw [allocNodup.mem_erase_iff]
      tauto

/-- A teardown retires its struct and then owes its id. -/
theorem structFree (member : (t, .torn p) ∈ s.pool) : Inv (portStructFree s t p) := by
  obtain ⟨live, zero, zeroed⟩ := inv.counts.held t _ member
  obtain ⟨noRefs, closed⟩ := inv.torn_unreferenced member
  obtain ⟨given, notRecycled⟩ := live_iff.mp live
  set s' : State := portStructFree s t p with s'Eq
  have poolEq : s'.pool = (t, .giveBack (s.heap p).id (s.heap p).serial) ::
      s.pool.erase (t, .torn p) := rfl
  obtain ⟨allocNodup, recycleNodup, recycleSub, liveOf⟩ :
      s'.allocated.Nodup ∧ s'.recycle.Nodup ∧ (∀ q ∈ s'.recycle, q ∈ s'.allocated) ∧
        ∀ q, Live s' q ↔ Live s q ∧ q ≠ p := inv.retired given notRecycled
  have livePerm := liveList_perm inv.ownership.alloc_nodup allocNodup live liveOf
  have pooled : ∀ u g, (u, g) ∈ s'.pool → (u, g) ∈ s.pool ∨
      (g = .giveBack (s.heap p).id (s.heap p).serial) := by
    intro u g inside
    rcases mem_cons.mp inside with new | old
    · cases new
      exact Or.inr rfl
    · exact Or.inl (mem_of_mem_erase old)
  have tornOf : ∀ q, tornCount s q = tornCount s' q + (if p = q then 1 else 0) := by
    intro q
    have removed := countP_erase_add member (fun entry => decide (entry.2 = Holder.torn q))
    unfold tornCount
    rw [poolEq, removed]
    simp
  have tornGone : ∀ u, (u, .torn p) ∉ s'.pool := by
    intro u inside
    have positive : 0 < tornCount s' p := countP_pos_iff.mpr ⟨_, inside, by simp⟩
    have once := inv.counts.torn_once p
    have split := tornOf p
    rw [if_pos rfl] at split
    omega
  have refsOf : ∀ q, refsTo s' q = refsTo s q := by
    intro q
    have removed := countP_erase_add member (fun entry => decide (entry.2.counted = some q))
    unfold refsTo
    rw [poolEq, removed]
    simp [Holder.counted]
  have dueEq : dueIds s' = (s.heap p).id :: dueIds s := by
    unfold dueIds
    rw [poolEq, filterMap_cons, @filterMap_erase_of_none (t, .torn p) rfl]
    rfl
  refine ⟨⟨allocNodup, recycleNodup, recycleSub, ?_, ?_⟩, ⟨?_, ?_, ?_⟩, ⟨?_, ?_, ?_⟩, fun few =>
    ⟨(inv.stamps few).generation_le, (inv.stamps few).stamped_le, (inv.stamps few).nodup⟩⟩
  · -- the id of `p` moves from the live ones to the owed ones
    apply inv.ids_of_perm
    have moved : (liveIds s).Perm ((s.heap p).id :: liveIds s') :=
      livePerm.map (fun q => (s.heap q).id)
    rw [dueEq]
    apply List.Perm.append_left
    exact (perm_middle.symm.trans (moved.symm.append_left _))
  · intro id q
    rw [liveOf]
    change s.table id = some q ↔ _
    rw [inv.ownership.table_iff id q]
    constructor
    · rintro ⟨liveQ, idQ, active⟩
      refine ⟨⟨liveQ, ?_⟩, idQ, active⟩
      rintro rfl
      rw [closed] at active
      cases active
    · rintro ⟨⟨liveQ, _⟩, idQ, active⟩
      exact ⟨liveQ, idQ, active⟩
  · intro u g inside
    rcases pooled u g inside with old | rfl
    · have held := inv.counts.held u g old
      have unreferenced : g.counted ≠ some p := fun counted => by
        have positive : 0 < refsTo s p := countP_pos_iff.mpr ⟨_, old, by simp [counted]⟩
        omega
      cases g with
      | ref q => exact ⟨(liveOf q).mpr ⟨held.1, fun same => unreferenced (by rw [same]; rfl)⟩, held.2⟩
      | slot q => exact ⟨(liveOf q).mpr ⟨held.1, fun same => unreferenced (by rw [same]; rfl)⟩, held.2⟩
      | torn q =>
        refine ⟨(liveOf q).mpr ⟨held.1, ?_⟩, held.2⟩
        rintro rfl
        exact tornGone u inside
      | giveBack => exact held
    · exact ⟨inv.history.closed_destroyed p live closed, zeroed, _, inv.history.live_recorded p live⟩
  · intro q
    have before := inv.counts.torn_once q
    rw [tornOf q] at before
    omega
  · intro q liveQ
    rw [refsOf]
    exact inv.counts.count q ((liveOf q).mp liveQ).1
  · intro q liveQ
    exact inv.history.live_recorded q ((liveOf q).mp liveQ).1
  · intro q liveQ closedQ
    exact inv.history.closed_destroyed q ((liveOf q).mp liveQ).1 closedQ
  · intro serial bound
    rcases inv.history.accounted serial bound with ⟨q, liveQ, mineQ⟩ | retired
    · by_cases equal : q = p
      · subst equal
        rw [← mineQ]
        exact Or.inr ⟨inv.history.closed_destroyed q live closed, zeroed⟩
      · exact Or.inl ⟨q, (liveOf q).mpr ⟨liveQ, equal⟩, mineQ⟩
    · exact Or.inr retired

theorem giveBack {serial : Nat} (member : (t, .giveBack id serial) ∈ s.pool) :
    Inv (pushId s t id serial) := by
  have duePerm : (dueIds s).Perm (id :: dueIds (pushId s t id serial)) := by
    have moved := (perm_cons_erase member).filterMap (fun entry => entry.2.due)
    rwa [filterMap_cons] at moved
  have countOf : ∀ test : Tid × Holder → Bool, test (t, .giveBack id serial) = false →
      (pushId s t id serial).pool.countP test = s.pool.countP test := by
    intro test unaffected
    rw [countP_erase_add member test, unaffected]
    rfl
  refine ⟨⟨inv.ownership.alloc_nodup, inv.ownership.recycle_nodup,
    inv.ownership.recycle_sub, ?_, inv.ownership.table_iff⟩, ⟨fun u g inside => ?_, ?_, ?_⟩,
    ⟨inv.history.live_recorded, inv.history.closed_destroyed, inv.history.accounted⟩, fun few =>
    ⟨(inv.stamps few).generation_le, (inv.stamps few).stamped_le, (inv.stamps few).nodup⟩⟩
  · apply inv.ids_of_perm
    refine perm_middle.symm.trans (List.Perm.append_left _ ?_)
    exact (duePerm.append_right (liveIds s)).symm
  · have held := inv.counts.held u g (mem_of_mem_erase inside)
    cases g <;> exact held
  · intro q
    unfold tornCount
    rw [countOf _ (by simp)]
    exact inv.counts.torn_once q
  · intro q live
    unfold refsTo
    rw [countOf _ (by simp [Holder.counted])]
    exact inv.counts.count q live

theorem alloc_spec {fresh : Option Addr} (ok : freshOk s fresh = true)
    (taken : portStructAlloc s fresh = some (p, recycle, allocated)) :
    allocated.Nodup ∧ recycle.Nodup ∧ (∀ q ∈ recycle, q ∈ allocated) ∧
      (p ∈ allocated ∧ p ∉ recycle) ∧ ∀ q, Live s q ↔ (q ∈ allocated ∧ q ∉ recycle) ∧ q ≠ p := by
  obtain ⟨allocNodup, recycleNodup, recycleSub, _, _⟩ := inv.ownership
  simp only [live_iff]
  unfold portStructAlloc at taken
  unfold freshOk at ok
  cases stack : s.recycle with
  | cons =>
    simp only [stack, Option.some.injEq, Prod.mk.injEq] at taken
    obtain ⟨rfl, rfl, rfl⟩ := taken
    rw [stack] at recycleNodup recycleSub
    rw [nodup_cons] at recycleNodup
    refine ⟨allocNodup, recycleNodup.2, fun q inside => recycleSub q (mem_cons_of_mem _ inside),
      ⟨recycleSub _ mem_cons_self, recycleNodup.1⟩, ?_⟩
    intro q
    rw [mem_cons, not_or]
    tauto
  | nil =>
    cases fresh with
    | none => simp [stack] at taken
    | some block =>
      simp only [stack, map_some, Option.some.injEq, Prod.mk.injEq] at taken
      obtain ⟨rfl, rfl, rfl⟩ := taken
      have unused : block ∉ s.allocated := by simpa [stack] using ok
      refine ⟨nodup_cons.mpr ⟨unused, allocNodup⟩, nodup_nil,
        by simp, ⟨mem_cons_self, by simp⟩, ?_⟩
      intro q
      rw [mem_cons]
      have different : q ∈ s.allocated → q ≠ block := by
        rintro inside rfl
        exact unused inside
      tauto

/-- The section that publishes a new port. -/
theorem published {owner : Int} {ids : List Nat} (free : s.freelist = id :: ids)
    (spec : allocated.Nodup ∧ recycle.Nodup ∧ (∀ q ∈ recycle, q ∈ allocated) ∧
      (p ∈ allocated ∧ p ∉ recycle) ∧ ∀ q, Live s q ↔ (q ∈ allocated ∧ q ∉ recycle) ∧ q ≠ p) :
    Inv (publish s owner id ids p recycle allocated) := by
  obtain ⟨allocNodup, recycleNodup, recycleSub, mine, liveBefore⟩ := spec
  set s' := publish s owner id ids p recycle allocated with s'Eq
  have liveP : Live s' p := live_iff.mpr mine
  have liveOf : ∀ q, Live s q ↔ Live s' q ∧ q ≠ p := by
    intro q
    rw [liveBefore q, live_iff]
    exact Iff.rfl
  have heapSelf : s'.heap p = ⟨id, owner, .active,
      (s.generation id + 1) % 2 ^ 32, 1, s.history.length⟩ :=
    update_self ..
  have heapOther : ∀ q, q ≠ p → s'.heap q = s.heap q := fun q different => update_of_ne different ..
  have livePerm := liveList_perm allocNodup inv.ownership.alloc_nodup liveP liveOf
  have historyEq : s'.history = s.history ++ [⟨id, (s.generation id + 1) % 2 ^ 32⟩] := rfl
  have notLive : ∀ {q}, Live s q → q ≠ p := fun live => ((liveOf _).mp live).2
  have whole := inv.ownership.ids
  refine ⟨⟨allocNodup, recycleNodup, recycleSub, ?_, ?_⟩,
    ⟨?_, inv.counts.torn_once, ?_⟩, ⟨?_, ?_, ?_⟩, ?_⟩
  · -- the id of the new port moves from the free ones to the live ones
    apply inv.ids_of_perm
    have sameIds : (liveList s).map (fun q => (s'.heap q).id) = liveIds s := by
      apply map_congr_left
      intro q inside
      rw [heapOther q (notLive inside)]
    have moved : (liveIds s').Perm (id :: liveIds s) := by
      have mapped := livePerm.map (fun q => (s'.heap q).id)
      rwa [map_cons, heapSelf, sameIds] at mapped
    rw [free]
    rw [← append_assoc, cons_append, ← append_assoc]
    exact (moved.append_left _).trans perm_middle
  · intro other q
    change update s.table id (some p) other = some q ↔ _
    by_cases equal : q = p
    · subst equal
      rw [heapSelf]
      constructor
      · intro occupied
        by_cases here : other = id
        · exact ⟨liveP, here.symm, rfl⟩
        · rw [update_of_ne here] at occupied
          exact absurd rfl (notLive (inv.live_of_table occupied))
      · rintro ⟨_, rfl, _⟩
        exact update_self ..
    · rw [heapOther q equal]
      by_cases here : other = id
      · subst here
        rw [update_self]
        constructor
        · intro occupied
          exact absurd (Option.some.inj occupied).symm equal
        -- an id on the free list belongs to no live struct
        rintro ⟨liveQ, idQ, _⟩
        have owned : other ∈ dueIds s ++ liveIds s :=
          mem_append_right _ (mem_map.mpr ⟨q, (liveOf q).mpr ⟨liveQ, equal⟩, idQ⟩)
        rw [free] at whole
        exact absurd (mem_append_right ids owned) (nodup_cons.mp whole).1
      · rw [update_of_ne here, inv.ownership.table_iff, liveOf]
        simp [equal]
  · intro u h member
    have held := inv.counts.held u h member
    cases h with
    | ref q | slot q | torn q =>
      simp only [Held, heapOther q (notLive held.1)]
      exact ⟨((liveOf q).mp held.1).1, held.2⟩
    | giveBack other serial =>
      obtain ⟨dead, zero, gen, recorded⟩ := held
      refine ⟨dead, zero, gen, ?_⟩
      rwa [historyEq, List.getElem?_append_left (List.getElem?_eq_some_iff.mp recorded).1]
  · intro q live
    by_cases equal : q = p
    · subst equal
      have noRefs : refsTo s q = 0 := by
        unfold refsTo
        rw [countP_eq_zero]
        rintro ⟨u, h⟩ member counted
        exact notLive ((inv.counts.held u h member).live (of_decide_eq_true counted)) rfl
      rw [heapSelf]
      change _ ∨ 1 = refsTo s q + 1
      rw [noRefs]
      exact Or.inr rfl
    · rw [heapOther q equal]
      exact inv.counts.count q ((liveOf q).mpr ⟨live, equal⟩)
  · intro q live
    by_cases equal : q = p
    · subst equal
      rw [heapSelf, historyEq]
      exact List.getElem?_concat_length
    · rw [heapOther q equal, historyEq]
      have before := inv.history.live_recorded q ((liveOf q).mpr ⟨live, equal⟩)
      rwa [List.getElem?_append_left (List.getElem?_eq_some_iff.mp before).1]
  · intro q live closed
    have equal : q ≠ p := by
      rintro rfl
      rw [heapSelf] at closed
      cases closed
    rw [heapOther q equal] at closed ⊢
    exact inv.history.closed_destroyed q ((liveOf q).mpr ⟨live, equal⟩) closed
  · intro serial bound
    rw [historyEq, length_append, length_singleton] at bound
    rcases Nat.lt_succ_iff_lt_or_eq.mp bound with old | rfl
    · rcases inv.history.accounted serial old with ⟨q, live, mineQ⟩ | retired
      · refine Or.inl ⟨q, ((liveOf q).mp live).1, ?_⟩
        rw [heapOther q (notLive live)]
        exact mineQ
      · exact Or.inr retired
    · exact Or.inl ⟨p, liveP, by rw [heapSelf]⟩
  · intro few
    rw [historyEq, length_append, length_singleton] at few
    exact (inv.stamps (by omega)).stamp few

theorem create (owner : Int) {fresh : Option Addr}
    (ok : freshOk s fresh = true) : Inv (ipcPortCreate s owner fresh) := by
  unfold ipcPortCreate
  split
  · exact inv
  next id ids free =>
    split
    · exact inv
    · next p recycle allocated taken => exact inv.published free (inv.alloc_spec ok taken)

end

end Inv

/-- What the step with a label does. -/
inductive Effect (s : State) : Label → State → Prop where
  | create {t : Tid} {owner : Int} {fresh : Option Addr} (ok : freshOk s fresh = true) :
      Effect s (.create t owner fresh) (ipcPortCreate s owner fresh)
  | destroy {t : Tid} {id : Nat} : Effect s (.destroy t id) (ipcPortDestroy s t id)
  | get {t : Tid} {id : Nat} : Effect s (.get t id) (takeRef s t (ipcPortGet s id))
  | getChecked {t : Tid} {id gen : Nat} :
      Effect s (.getChecked t id gen) (takeRef s t (ipcPortGetChecked s id gen))
  | drop {t : Tid} {h : Holder} {p : Addr} (counted : h.counted = some p) (member : (t, h) ∈ s.pool) :
      Effect s (.drop t h) (dropRef s t h p)
  | structFree {t : Tid} {p : Addr} (member : (t, .torn p) ∈ s.pool) :
      Effect s (.structFree t p) (portStructFree s t p)
  | pushId {t : Tid} {id serial : Nat} (member : (t, .giveBack id serial) ∈ s.pool) :
      Effect s (.pushId t id serial) (pushId s t id serial)

theorem Step.effect {s s' : State} {label : Label} (taken : Step s label s') :
    Effect s label s' := by
  unfold Step step at taken
  cases label with
  | destroy | get | getChecked =>
    cases taken
    constructor
  | drop t h =>
    cases counted : h.counted with
    | none => simp [counted] at taken
    | some =>
      simp only [counted, ite_none_right_eq_some, Option.some.injEq] at taken
      obtain ⟨member, rfl⟩ := taken
      exact .drop counted member
  | create | structFree | pushId =>
    simp only [ite_none_right_eq_some, Option.some.injEq] at taken
    obtain ⟨guard, rfl⟩ := taken
    constructor
    exact guard

theorem inv_step (s : State) (label : Label) (s' : State) (inv : Inv s)
    (taken : Step s label s') : Inv s' := by
  cases taken.effect with
  | create ok => exact inv.create _ ok
  | destroy => exact inv.destroy ..
  | get => exact inv.get ..
  | getChecked => exact inv.getChecked ..
  | drop counted member => exact inv.drop member counted
  | structFree member => exact inv.structFree member
  | pushId member => exact inv.giveBack member

theorem inv_of_reachable {s : State} (reachable : Reachable s) : Inv s := by
  obtain ⟨_, run⟩ := reachable
  exact run.invariant inv_step inv_initial

/-! ### Identity of ports -/

theorem freelist_grows {s s' : State} {label : Label} (taken : Step s label s')
    (after : id ∈ s'.freelist) (before : id ∉ s.freelist) :
    ∃ t serial, (t, .giveBack id serial) ∈ s.pool := by
  cases taken.effect with
  | create =>
    unfold ipcPortCreate at after
    split at after
    · exact absurd after before
    next first rest free =>
      split at after
      · exact absurd after before
      have inside : id ∈ rest := after
      rw [free] at before
      exact absurd (mem_cons_of_mem first inside) before
  | destroy =>
    unfold ipcPortDestroy at after
    split at after
    · split at after <;> exact absurd after before
    · exact absurd after before
  | get | getChecked =>
    unfold takeRef at after
    split at after <;> exact absurd after before
  | drop | structFree => exact absurd after before
  | pushId member =>
    rcases mem_cons.mp after with rfl | old
    · exact ⟨_, _, member⟩
    · exact absurd old before

theorem Inv.retired_of_unowned {s : State} (inv : Inv s) (unowned : id ∉ liveIds s) {serial : Nat}
    {incarnation : Incarnation} (recorded : s.history[serial]? = some incarnation)
    (same : incarnation.id = id) : serial ∈ s.destroyed ∧ serial ∈ s.zeroed := by
  have bound := (List.getElem?_eq_some_iff.mp recorded).1
  rcases inv.history.accounted serial bound with ⟨p, live, mine⟩ | retired
  · have stamped := inv.history.live_recorded p live
    rw [mine, recorded] at stamped
    have owner : (s.heap p).id = id := by rw [← same, Option.some.inj stamped]
    exact absurd (List.mem_map.mpr ⟨p, live, owner⟩) unowned
  · exact retired

/-- What the port table promises its callers in state `s`. -/
structure PortContract (s : State) : Prop where
  /-- An id is put back only when each port that had it has been destroyed and
  has seen its reference count reach zero. -/
  returned : ∀ label s' id, Step s label s' → id ∈ s'.freelist →
    id ∉ s.freelist → ∀ serial incarnation, s.history[serial]? = some incarnation →
    incarnation.id = id → serial ∈ s.destroyed ∧ serial ∈ s.zeroed
  free_once : s.freelist.Nodup
  free_not_live : ∀ id ∈ s.freelist, s.table id = none ∧ ∀ p, Live s p → (s.heap p).id ≠ id
  /-- A drop never meets a count of zero. -/
  no_underflow : ∀ t h p s', h.counted = some p → Step s (.drop t h) s' → 0 < (s.heap p).refcount
  /-- A checked get finds the one incarnation that had this generation. -/
  checked : ∀ id gen p, ipcPortGetChecked s id gen = some p →
    ∀ serial, s.history[serial]? = some ⟨id, gen⟩ ↔ (s.heap p).serial = serial
  /-- A struct is not recycled while a reference to it is in hand. -/
  pinned : ∀ t p serial, (t, .ref p serial) ∈ s.pool → Live s p ∧ (s.heap p).serial = serial

/-- Over every interleaving of port operations with fewer than `2 ^ 32`
creates, ids and references keep their identity. -/
theorem port_identity {s : State} (reachable : Reachable s)
    (few : s.history.length < 2 ^ 32) : PortContract s := by
  have inv := inv_of_reachable reachable
  have whole := inv.ownership.ids
  rw [nodup_append] at whole
  obtain ⟨freeNodup, ownedNodup, apart⟩ := whole
  refine ⟨?_, freeNodup, ?_, ?_, ?_, ?_⟩
  · intro label s' id taken after before serial incarnation recorded same
    obtain ⟨_, _, member⟩ := freelist_grows taken after before
    have owed : id ∈ dueIds s := mem_filterMap.mpr ⟨_, member, rfl⟩
    have unowned : id ∉ liveIds s := fun owned =>
      (nodup_append.mp ownedNodup).2.2 id owed id owned rfl
    exact inv.retired_of_unowned unowned recorded same
  · intro id free
    have unowned : ∀ p, Live s p → (s.heap p).id ≠ id := by
      intro p live owner
      exact apart id free id (mem_append_right _ (List.mem_map.mpr ⟨p, live, owner⟩)) rfl
    refine ⟨?_, unowned⟩
    cases occupied : s.table id with
    | none => rfl
    | some p =>
      obtain ⟨live, owner, _⟩ := (inv.ownership.table_iff id p).mp occupied
      exact absurd owner (unowned p live)
  · intro t h p s' counted taken
    simp only [Step, step, counted, ite_none_right_eq_some] at taken
    exact inv.refcount_pos taken.1 counted
  · intro id gen p found serial
    obtain ⟨⟨live, idEq, _⟩, stamped⟩ := inv.found_of_getChecked found
    have recorded := inv.history.live_recorded p live
    rw [idEq, stamped] at recorded
    constructor
    · intro other
      have bound := (List.getElem?_eq_some_iff.mp recorded).1
      exact (List.getElem?_inj bound (inv.stamps few).nodup).mp (recorded.trans other.symm)
    · rintro rfl
      exact recorded
  · intro t p serial member
    exact inv.counts.held t _ member

/-- A port that another thread still holds is destroyed; after the last put its
id and its struct go to a new port. -/
def reused : List Label :=
  [.create 0 7 (some 64), .getChecked 3 1 1, .destroy 0 1, .drop 0 (.slot 64),
    .drop 3 (.ref 64 0), .structFree 3 64, .pushId 3 1 0, .create 5 9 none]

/-- The generation of the first port finds nothing any more, that of the second
one finds it. -/
theorem port_identity_one : ∃ s, Lib.Steps Step initial reused s ∧ ipcPortGetChecked s 1 1 = none ∧
    ipcPortGetChecked s 1 2 = some 64 ∧ (s.heap 64).ownerPid = 9 ∧ PortContract s := by
  have followed : (Lib.followRun step initial reused).map (fun s =>
      (ipcPortGetChecked s 1 1, ipcPortGetChecked s 1 2, (s.heap 64).ownerPid,
        s.history.length)) = some (none, some 64, 9, 2) := by
    decide +kernel
  obtain ⟨s, run, seen⟩ := Lib.Steps.of_followed followed
  simp only [Prod.mk.injEq] at seen
  obtain ⟨stale, current, owner, two⟩ := seen
  exact ⟨s, run, stale, current, owner, port_identity ⟨_, run⟩ (by rw [two]; decide)⟩

/-- Over every interleaving, the count of a live struct is the references in the
hands of threads and that of its table slot, unless it is frozen; a teardown is
due only for a closed struct that nobody refers to; and an incarnation has its
struct until it was destroyed and its count has reached zero. -/
theorem port_references_counted {s : State} (reachable : Reachable s) :
    (∀ p, Live s p → refcountSaturated ≤ (s.heap p).refcount ∨ (s.heap p).refcount = refsTo s p + if
      (s.heap p).state = .active then 1 else 0) ∧ (∀ t p, (t, .torn p) ∈ s.pool →
    refsTo s p = 0 ∧ (s.heap p).state = .closed) ∧ ∀ serial < s.history.length,
    (∃ p, Live s p ∧ (s.heap p).serial = serial) ∨ (serial ∈ s.destroyed ∧ serial ∈ s.zeroed) := by
  have inv := inv_of_reachable reachable
  exact ⟨inv.counts.count, fun _ _ due => inv.torn_unreferenced due, inv.history.accounted⟩

/-- A port that a thread has got hold of. -/
theorem port_references_counted_held : ∃ s, Reachable s ∧ (s.heap 64).refcount = 2 ∧
    (refcountSaturated ≤ (s.heap 64).refcount ∨
      (s.heap 64).refcount = refsTo s 64 + if (s.heap 64).state = .active then 1 else 0) := by
  have found : ipcPortGet (ipcPortCreate initial 7 (some 64)) 1 = some 64 := by decide +kernel
  have reachable : Reachable (takeRef (ipcPortCreate initial 7 (some 64)) 3 (some 64)) :=
    ⟨[.create 0 7 (some 64), .get 3 1], .cons rfl (.single (by rw [Step, step, found]))⟩
  have live : Live (takeRef (ipcPortCreate initial 7 (some 64)) 3 (some 64)) 64 :=
    live_iff.mpr (by decide +kernel)
  exact ⟨_, reachable, by decide +kernel, (port_references_counted reachable).1 64 live⟩

end MainDob.Kernel.Port
