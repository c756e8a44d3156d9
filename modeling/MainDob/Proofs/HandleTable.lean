/-
Purpose: What the handle table promises under each reuse policy, after every
  sequence of insertions and removals: an id is live for one object, a live id
  finds it, an insertion fails only when every id is live, a freed id comes
  back, and a stale handle finds nothing.
Main exports: Layout, Inv, handle_table
-/
import Mathlib.Data.List.Nodup
import Mathlib.Data.List.Perm.Subperm
import MainDob.Kernel.HandleTable

namespace MainDob.Kernel.HandleTable

open Function (update update_of_ne update_self)
open Lib
open List

variable {α : Type}

/-! ### The free ids -/

/-- Where the policy keeps the free ids. -/
def Layout (t : Table α) (frees : List Nat) : Prop :=
  match t.reuse with
  | .lifo => ∀ i, i < frees.length → frees[i]? = some (t.freelist i)
  | .fifo => t.freeHead < t.capacity ∧
      t.freeTail = (t.freeHead + frees.length) % t.capacity ∧
      ∀ i, i < frees.length → frees[i]? = some (t.freelist ((t.freeHead + i) % t.capacity))
  | .monotonic => 0 < t.nextScan ∧ (t.nextScan < t.capacity ∨ t.capacity = 1)

/-- The free ids are the ones without an object, and the policy has them. -/
structure Inv (t : Table α) (frees : List Nat) : Prop where
  pos : 0 < t.capacity
  once : frees.Nodup
  free : ∀ id, id ∈ frees ↔ inRange t id ∧ t.slots id = none
  count : t.freeCount = frees.length
  layout : Layout t frees

section Free

variable {t : Table α} {frees : List Nat} {id : Nat}

theorem ring_index {head offset capacity : Nat} (first : head < capacity)
    (second : offset < capacity) :
    (head + offset) % capacity = if head + offset < capacity then head + offset
      else head + offset - capacity := by
  split
  · next small => exact Nat.mod_eq_of_lt small
  next wraps =>
    rw [Nat.mod_eq_sub_mod (Nat.le_of_not_lt wraps)]
    exact Nat.mod_eq_of_lt (by omega)

theorem Inv.short (inv : Inv t frees) : frees.length ≤ t.capacity - 1 := by
  have inside : frees ⊆ List.range' 1 (t.capacity - 1) := by
    intro id member
    have range := ((inv.free id).mp member).1
    simp only [inRange] at range
    rw [mem_range'_1]
    omega
  have bound := (subperm_of_subset inv.once inside).length_le
  rwa [length_range'] at bound

/-- How far the cursor has to go to come to an id. -/
def distance (t : Table α) (start id : Nat) : Nat :=
  if start ≤ id then id - start else id + (t.capacity - 1) - start

theorem scanFrom_spec {x turns start : Nat} (range : inRange t x) (free : t.slots x = none)
    (here : inRange t start) (near : distance t start x < turns) :
    ∃ id, scanFrom t turns start = (id, { t with nextScan := nextId t id }) ∧
      inRange t id ∧ t.slots id = none := by
  induction turns generalizing start with
  | zero => cases near
  | succ _ ih =>
    have notZero : start ≠ 0 := Nat.ne_of_gt here.1
    simp only [scanFrom, if_neg notZero]
    cases slot : t.slots start with
    | none => exact ⟨start, rfl, here, slot⟩
    | some =>
      have different : start ≠ x := by
        rintro rfl
        rw [free] at slot
        cases slot
      refine ih ?_ ?_
      · simp only [inRange, nextId] at *
        split <;> omega
      · simp only [inRange, nextId, distance] at *
        split at near <;> split <;> split <;> omega

/-- The parts of a table a policy does not touch. -/
structure SameSlots (t t' : Table α) : Prop where
  slots : t'.slots = t.slots
  generation : t'.generation = t.generation
  capacity : t'.capacity = t.capacity
  reuse : t'.reuse = t.reuse
  freeCount : t'.freeCount = t.freeCount

/-- What taking an id leaves free. -/
structure Taken (frees : List Nat) (id : Nat) (rest : List Nat) : Prop where
  member : id ∈ frees
  once : rest.Nodup
  others : ∀ other, other ∈ rest ↔ other ∈ frees ∧ other ≠ id
  length : rest.length + 1 = frees.length

theorem taken_last {init : List Nat} {last : Nat}
    (once : (init ++ [last]).Nodup) : Taken (init ++ [last]) last init where
  member := by simp
  once := (nodup_append.mp once).1
  others other := by
    have apart := (nodup_append.mp once).2.2
    constructor
    · intro inside
      exact ⟨mem_append_left _ inside, apart other inside last (by simp)⟩
    · rintro ⟨inside, different⟩
      simpa [different] using inside
  length := by simp

theorem taken_first {first : Nat} {rest : List Nat}
    (once : (first :: rest).Nodup) : Taken (first :: rest) first rest where
  member := mem_cons_self
  once := (nodup_cons.mp once).2
  others other := by
    have absent := (nodup_cons.mp once).1
    constructor
    · intro inside
      refine ⟨mem_cons_of_mem _ inside, ?_⟩
      rintro rfl
      exact absent inside
    · rintro ⟨inside, different⟩
      exact (mem_cons.mp inside).resolve_left different
  length := rfl

theorem taken_erase (once : frees.Nodup) (member : id ∈ frees) :
    Taken frees id (frees.erase id) where
  member := member
  once := once.erase id
  others other := by rw [once.mem_erase_iff, and_comm]
  length := by
    rw [length_erase_of_mem member]
    exact Nat.succ_pred_eq_of_pos (length_pos_of_mem member)

theorem idTake_spec (inv : Inv t frees) (some' : 0 < frees.length) :
    ∃ id rest t', idTake t = (id, t') ∧ SameSlots t t' ∧ Taken frees id rest ∧ Layout t' rest := by
  have layout := inv.layout
  unfold idTake
  cases policy : t.reuse with
  | lifo =>
    rcases frees.eq_nil_or_concat' with rfl | ⟨init, last, rfl⟩
    · cases some'
    simp only [Layout, policy] at layout
    have top : t.freelist (t.freeCount - 1) = last := by
      have here := layout init.length (by simp)
      rw [inv.count]
      simpa using here.symm
    refine ⟨last, init, t, by simp only [idTakeLifo, top],
      ⟨rfl, rfl, rfl, rfl, rfl⟩, taken_last inv.once, ?_⟩
    simp only [Layout, policy]
    intro i bound
    have here := layout i (by simp; omega)
    rwa [List.getElem?_append_left bound] at here
  | fifo =>
    cases frees with
    | nil => cases some'
    | cons first rest =>
      simp only [Layout, policy] at layout
      obtain ⟨head, tail, cells⟩ := layout
      have top : t.freelist t.freeHead = first := by
        have here := cells 0 some'
        rw [Nat.add_zero, Nat.mod_eq_of_lt head] at here
        simpa using here.symm
      refine ⟨first, rest, (idTakeFifo t).2, by simp only [idTakeFifo, top],
        ⟨rfl, rfl, rfl, rfl, rfl⟩, taken_first inv.once, ?_⟩
      simp only [Layout, idTakeFifo, policy]
      refine ⟨Nat.mod_lt _ inv.pos, ?_, ?_⟩
      · rw [tail, Nat.mod_add_mod, length_cons]
        congr 1
        omega
      · intro i bound
        have here := cells (i + 1) (by simpa using bound)
        rw [List.getElem?_cons_succ] at here
        rw [here, Nat.mod_add_mod]
        congr 3
        omega
  | monotonic =>
    simp only [Layout, policy] at layout
    obtain ⟨x, member⟩ := exists_mem_of_length_pos some'
    obtain ⟨range, free⟩ := (inv.free x).mp member
    have start : inRange t t.nextScan := by
      simp only [inRange] at range ⊢
      omega
    have near : distance t t.nextScan x < t.capacity - 1 := by
      simp only [inRange, distance] at *
      split <;> omega
    obtain ⟨id, found, idRange, idFree⟩ := scanFrom_spec range free start near
    have idMember := (inv.free id).mpr ⟨idRange, idFree⟩
    refine ⟨id, frees.erase id, _, found, ⟨rfl, rfl, rfl, rfl, rfl⟩,
      taken_erase inv.once idMember, ?_⟩
    simp only [Layout, policy, nextId, inRange] at *
    split <;> omega

theorem idReturn_spec (id : Nat) (count : t.freeCount = frees.length)
    (layout : Layout t frees) (short : frees.length < t.capacity) :
    SameSlots t (idReturn t id) ∧ Layout (idReturn t id) (frees ++ [id]) := by
  unfold idReturn
  cases policy : t.reuse with
  | lifo =>
    simp only [Layout, policy] at layout
    refine ⟨⟨rfl, rfl, rfl, policy.symm ▸ rfl, rfl⟩, ?_⟩
    simp only [Layout, idReturnLifo, policy]
    intro i bound
    rw [length_append, length_singleton] at bound
    rcases Nat.lt_or_eq_of_le (Nat.le_of_lt_succ bound) with before | rfl
    · have other : i ≠ t.freeCount := by
        omega
      rw [List.getElem?_append_left before, update_of_ne other]
      exact layout i before
    · rw [← count, update_self, count]
      simp
  | fifo =>
    simp only [Layout, policy] at layout
    obtain ⟨head, tail, cells⟩ := layout
    refine ⟨⟨rfl, rfl, rfl, policy.symm ▸ rfl, rfl⟩, ?_⟩
    simp only [Layout, idReturnFifo, policy]
    refine ⟨head, ?_, ?_⟩
    · rw [tail, Nat.mod_add_mod, length_append, length_singleton, Nat.add_assoc]
    intro i bound
    rw [length_append, length_singleton] at bound
    rcases Nat.lt_or_eq_of_le (Nat.le_of_lt_succ bound) with before | rfl
    · have other : (t.freeHead + i) % t.capacity ≠ t.freeTail := by
        rw [tail, ring_index head short, ring_index head (by omega)]
        split <;> split <;> omega
      rw [List.getElem?_append_left before, update_of_ne other]
      exact cells i before
    · rw [← tail, update_self]
      simp
  | monotonic =>
    simp only [Layout, policy] at layout
    refine ⟨⟨rfl, rfl, rfl, policy.symm ▸ rfl, rfl⟩, ?_⟩
    simp only [Layout, policy]
    exact layout

theorem inv_init {capacity : Nat} (pos : 0 < capacity) (reuse : Reuse) :
    ∃ frees, Inv (handleTableInit α capacity reuse) frees := by
  have ids : ∀ id, id ∈ List.range' 1 (capacity - 1) ↔
      inRange (handleTableInit α capacity reuse) id ∧
        (handleTableInit α capacity reuse).slots id = none := by
    intro id
    simp only [inRange, handleTableInit, mem_range'_1, and_true]
    omega
  cases reuse with
  | fifo =>
    refine ⟨List.range' 1 (capacity - 1), pos, nodup_range', ids, (length_range').symm, ?_⟩
    simp only [Layout, handleTableInit, length_range', Nat.zero_add]
    refine ⟨pos, (Nat.mod_eq_of_lt (by omega)).symm, fun i bound => ?_⟩
    rw [List.getElem?_range' bound, Nat.mod_eq_of_lt (by omega), initialFreelist, if_pos (by omega)]
    congr 1
    omega
  | lifo =>
    refine ⟨(List.range' 1 (capacity - 1)).reverse, pos, nodup_reverse.mpr nodup_range', ?_, ?_, ?_⟩
    · intro id
      rw [mem_reverse]
      exact ids id
    · simp [handleTableInit]
    simp only [Layout, handleTableInit, length_reverse, length_range']
    intro i bound
    rw [List.getElem?_reverse (by simpa using bound), length_range',
      List.getElem?_range' (by omega), initialFreelist, if_pos (by omega)]
    congr 1
    omega
  | monotonic =>
    refine ⟨List.range' 1 (capacity - 1), pos, nodup_range', ids, (length_range').symm, ?_⟩
    simp only [Layout, handleTableInit]
    omega

theorem Inv.refuse (inv : Inv t []) (obj : α) : handleTableInsert t obj = (t, ⟨0, 0⟩) :=
  if_pos inv.count

theorem Inv.insert (inv : Inv t frees) (some' : 0 < frees.length) (obj : α) : ∃ id rest t',
    handleTableInsert t obj = (t', ⟨id, (t.generation id + 1) % wordSize⟩) ∧ Taken frees id rest ∧
      Inv t' rest ∧ t'.capacity = t.capacity ∧ t'.slots = update t.slots id (some obj) ∧
      t'.generation = update t.generation id ((t.generation id + 1) % wordSize) := by
  obtain ⟨id, rest, t', took, same, taken, layout⟩ := idTake_spec inv some'
  have notZero : t.freeCount ≠ 0 := by
    rw [inv.count]
    exact Nat.ne_of_gt some'
  refine ⟨id, rest, slotPublish { t' with freeCount := t'.freeCount - 1 } id
    obj, ?_, taken, ?_, same.capacity, ?_, ?_⟩
  · rw [handleTableInsert, if_neg notZero, took]
    simp [slotPublish, same.generation]
  · constructor
    · show 0 < t'.capacity
      rw [same.capacity]
      exact inv.pos
    · exact taken.once
    · intro other
      rw [taken.others, inv.free]
      simp only [inRange, slotPublish, same.capacity, same.slots]
      by_cases here : other = id <;> simp [here]
    · have length := taken.length
      simp only [slotPublish, same.freeCount, inv.count]
      omega
    · exact layout
  · simp [slotPublish, same.slots]
  · simp [slotPublish, same.generation]

theorem Inv.remove (inv : Inv t frees) (range : inRange t id) {obj : α}
    (live : t.slots id = some obj) : ∃ t', handleTableRemove t id = (t', some obj) ∧
      Inv t' (frees ++ [id]) ∧ t'.capacity = t.capacity ∧
      t'.slots = update t.slots id none ∧ t'.generation = t.generation := by
  have absent : id ∉ frees := by
    intro member
    rw [((inv.free id).mp member).2] at live
    cases live
  have short : frees.length < t.capacity := by
    have bound := inv.short
    have pos := inv.pos
    omega
  obtain ⟨same, layout⟩ := idReturn_spec
    (t := { t with slots := update t.slots id none }) id inv.count
    inv.layout short
  refine ⟨{ idReturn { t with slots := update t.slots id none } id with
    freeCount := t.freeCount + 1 }, ?_, ?_, same.capacity, same.slots,
    same.generation⟩
  · rw [handleTableRemove, if_pos range, live]
    simp [same.freeCount]
  constructor
  · show 0 < (idReturn _ id).capacity
    rw [same.capacity]
    exact inv.pos
  · rw [nodup_append]
    refine ⟨inv.once, nodup_singleton id, ?_⟩
    rintro _ member _ (_ | ⟨_, ⟨⟩⟩) rfl
    exact absent member
  · intro other
    rw [mem_append, mem_singleton, inv.free]
    simp only [inRange, same.capacity, same.slots]
    by_cases here : other = id
    · subst here
      simpa [inRange] using range
    · simp [here]
  · simp [inv.count]
  · exact layout

theorem remove_dead (dead : handleTableGet t id = none) : handleTableRemove t id = (t, none) := by
  unfold handleTableGet at dead
  unfold handleTableRemove
  split
  · next range =>
      rw [if_pos range] at dead
      rw [dead]
  · rfl

end Free

/-! ### Accounts -/

/-- The handles that were given out are the objects in the slots. -/
structure Accounted (a : Account α) : Prop where
  inv : ∃ frees, Inv a.table frees
  distinct : (a.held.map fun entry => entry.1.id).Nodup
  held : ∀ ref obj, (ref, obj) ∈ a.held → inRange a.table ref.id ∧
    a.table.slots ref.id = some obj ∧ a.table.generation ref.id = ref.gen
  covered : ∀ id obj, a.table.slots id = some obj → ∃ ref, (ref, obj) ∈ a.held ∧ ref.id = id
  counted : ∀ id, a.table.generation id = a.inserts id % wordSize
  gone : ∀ ref ∈ a.gone, ∃ k, ref.gen = k % wordSize ∧
    k ≤ a.inserts ref.id ∧ (k = a.inserts ref.id → a.table.slots ref.id = none)

section Accounts

variable {a b : Account α}

theorem Accounted.initial {capacity : Nat} (pos : 0 < capacity)
    (reuse : Reuse) : Accounted (initial α capacity reuse) where
  inv := inv_init pos reuse
  distinct := nodup_nil
  held _ _ member := nomatch member
  covered _ _ found := nomatch found
  counted _ := rfl
  gone _ member := nomatch member

theorem Accounted.insert (ok : Accounted a) (obj : α) : Accounted (a.insert obj) := by
  obtain ⟨frees, inv⟩ := ok.inv
  rcases Nat.eq_zero_or_pos frees.length with none' | some'
  · have empty := eq_nil_of_length_eq_zero none'
    rw [empty] at inv
    rw [Account.insert, inv.refuse]
    exact ok
  obtain ⟨id, rest, t', result, taken, inv', capacity, slots, generation⟩ := inv.insert some' obj
  obtain ⟨range, free⟩ := (inv.free id).mp taken.member
  have notHeld : ∀ ref obj, (ref, obj) ∈ a.held → ref.id ≠ id := by
    rintro ref obj member rfl
    rw [(ok.held ref obj member).2.1] at free
    cases free
  simp only [Account.insert, result, if_neg (Nat.ne_of_gt range.1)]
  constructor
  case inv => exact ⟨rest, inv'⟩
  case distinct =>
    simp only [map_cons, nodup_cons]
    refine ⟨?_, ok.distinct⟩
    intro member
    obtain ⟨⟨ref, other⟩, inside, same⟩ := mem_map.mp member
    exact notHeld ref other inside same
  case held =>
    intro ref other member
    simp only [inRange, capacity, slots, generation]
    rcases mem_cons.mp member with new | old
    · cases new
      exact ⟨range, by simp, by simp⟩
    · have different := notHeld ref other old
      have facts := ok.held ref other old
      simpa [different, inRange] using facts
  case covered =>
    intro slot other found
    simp only [slots] at found
    by_cases here : slot = id
    · subst here
      rw [update_self] at found
      cases found
      exact ⟨_, mem_cons_self, rfl⟩
    · rw [update_of_ne here] at found
      obtain ⟨ref, member, same⟩ := ok.covered slot other found
      exact ⟨ref, mem_cons_of_mem _ member, same⟩
  case counted =>
    intro slot
    simp only [generation]
    by_cases here : slot = id
    · subst here
      rw [update_self, update_self, ok.counted, Nat.mod_add_mod]
    · rw [update_of_ne here, update_of_ne here]
      exact ok.counted slot
  case gone =>
    intro ref member
    obtain ⟨k, gen, le, last⟩ := ok.gone ref member
    simp only [slots]
    by_cases here : ref.id = id
    · rw [here] at le ⊢
      refine ⟨k, gen, ?_, ?_⟩
      · rw [update_self]
        omega
      · rw [update_self]
        omega
    · rw [update_of_ne here, update_of_ne here]
      exact ⟨k, gen, le, last⟩

theorem Accounted.remove (ok : Accounted a) (id : Nat) : Accounted (a.remove id) := by
  cases got : handleTableGet a.table id with
  | none =>
    rw [Account.remove, remove_dead got]
    exact ok
  | some obj =>
    obtain ⟨frees, inv⟩ := ok.inv
    obtain ⟨range, live⟩ : inRange a.table id ∧ a.table.slots id = some obj := by
      simpa [handleTableGet] using got
    obtain ⟨t', result, inv', capacity, slots, generation⟩ := inv.remove range live
    simp only [Account.remove, result]
    constructor
    case inv => exact ⟨_, inv'⟩
    case distinct =>
      refine ok.distinct.sublist ?_
      exact filter_sublist.map _
    case held =>
      intro ref other member
      obtain ⟨inside, different⟩ := mem_filter.mp member
      have apart : ref.id ≠ id := by simpa using different
      have facts := ok.held ref other inside
      simpa [inRange, capacity, slots, generation, apart] using facts
    case covered =>
      intro slot other found
      simp only [slots] at found
      have apart : slot ≠ id := by
        rintro rfl
        rw [update_self] at found
        cases found
      rw [update_of_ne apart] at found
      obtain ⟨ref, member, same⟩ := ok.covered slot other found
      refine ⟨ref, mem_filter.mpr ⟨member, ?_⟩, same⟩
      simpa [same] using apart
    case counted =>
      intro slot
      simp only [generation]
      exact ok.counted slot
    case gone =>
      intro ref member
      simp only [slots]
      rcases mem_append.mp member with new | old
      · obtain ⟨⟨ref', other⟩, inside, rfl⟩ := mem_map.mp new
        obtain ⟨wasHeld, here⟩ := mem_filter.mp inside
        have same : ref'.id = id := by simpa using here
        obtain ⟨_, _, gen⟩ := ok.held ref' other wasHeld
        refine ⟨a.inserts ref'.id, ?_, Nat.le_refl _, fun _ => ?_⟩
        · rw [← gen, ok.counted]
        · simp [same]
      · obtain ⟨k, gen, le, last⟩ := ok.gone ref old
        refine ⟨k, gen, le, fun now => ?_⟩
        by_cases here : ref.id = id
        · simp [here]
        · rw [update_of_ne here]
          exact last now

theorem Accounted.step (ok : Accounted a) {call : Call α}
    (taken : step a call b) : Accounted b := by
  subst taken
  cases call with
  | insert obj => exact ok.insert obj
  | remove id => exact ok.remove id

/-- The ids that `objs` are inserted under, one after the other. -/
def fill (t : Table α) : List α → List Nat
  | [] => []
  | obj :: objs =>
    (handleTableInsert t obj).2.id :: fill (handleTableInsert t obj).1 objs

theorem Inv.fill {t : Table α} {frees : List Nat} (inv : Inv t frees) {objs : List α}
    (enough : objs.length = frees.length) {id : Nat} (member : id ∈ frees) : id ∈ fill t objs := by
  induction objs generalizing t frees with
  | nil =>
    rw [eq_nil_of_length_eq_zero enough.symm] at member
    cases member
  | cons obj _ ih =>
    obtain ⟨first, rest, t', result, taken, inv', _⟩ := inv.insert (length_pos_of_mem member) obj
    simp only [HandleTable.fill, result]
    by_cases here : id = first
    · rw [here]
      exact mem_cons_self
    refine mem_cons_of_mem _ (ih inv' ?_ ?_)
    · have length := taken.length
      simp only [length_cons] at enough
      omega
    · exact (taken.others id).mpr ⟨member, here⟩

theorem Accounted.total (ok : Accounted a) {frees : List Nat} (inv : Inv a.table frees) :
    a.held.length + frees.length = a.table.capacity - 1 := by
  have apart : ((a.held.map fun entry => entry.1.id) ++ frees).Nodup := by
    rw [nodup_append]
    refine ⟨ok.distinct, inv.once, ?_⟩
    rintro id inHeld _ inFree rfl
    obtain ⟨⟨ref, obj⟩, member, rfl⟩ := mem_map.mp inHeld
    have live := (ok.held ref obj member).2.1
    rw [((inv.free ref.id).mp inFree).2] at live
    cases live
  have all : ((a.held.map fun entry => entry.1.id) ++ frees).Perm
      (List.range' 1 (a.table.capacity - 1)) := by
    rw [perm_ext_iff_of_nodup apart nodup_range']
    intro id
    rw [mem_append, mem_range'_1]
    constructor
    · rintro (inHeld | inFree)
      · obtain ⟨⟨ref, obj⟩, member, rfl⟩ := mem_map.mp inHeld
        have range := (ok.held ref obj member).1
        simp only [inRange] at range ⊢
        omega
      · have range := ((inv.free id).mp inFree).1
        simp only [inRange] at range
        omega
    · intro bounds
      have range : inRange a.table id := by
        simp only [inRange]
        omega
      cases slot : a.table.slots id with
      | none => exact .inr ((inv.free id).mpr ⟨range, slot⟩)
      | some obj =>
        obtain ⟨ref, member, same⟩ := ok.covered id obj slot
        exact .inl (mem_map.mpr ⟨(ref, obj), member, same⟩)
  have length := all.length_eq
  simpa using length

/-- What holds of a table, given what its calls have said. -/
structure Contract (a : Account α) : Prop where
  /-- No id is live for two objects. -/
  distinct : (a.held.map fun entry => entry.1.id).Nodup
  /-- A live id finds its object, also through its handle. -/
  found : ∀ ref obj, (ref, obj) ∈ a.held →
    handleTableGet a.table ref.id = some obj ∧ handleTableGetChecked a.table ref = some obj
  /-- Only live ids find an object. -/
  live : ∀ id obj, handleTableGet a.table id = some obj → ∃ ref, (ref, obj) ∈ a.held ∧ ref.id = id
  /-- An insertion fails exactly when every id is live. -/
  full : ∀ obj, (handleTableInsert a.table obj).2.id = 0 ↔ a.held.length = a.table.capacity - 1
  /-- An insertion takes an id that is not live. -/
  unused : ∀ obj ref, (handleTableInsert a.table obj).2 = ref → ref.id ≠ 0 →
    inRange a.table ref.id ∧ handleTableGet a.table ref.id = none
  /-- An id that is not live is handed out again before the table is full. -/
  returns : ∀ id, inRange a.table id → handleTableGet a.table id = none →
    ∀ objs : List α, objs.length + a.held.length = a.table.capacity - 1 → id ∈ fill a.table objs
  /-- A handle whose object was removed finds nothing. -/
  stale : (∀ id, a.inserts id < wordSize) → ∀ ref ∈ a.gone, handleTableGetChecked a.table ref = none

theorem Accounted.contract (ok : Accounted a) : Contract a := by
  obtain ⟨frees, inv⟩ := ok.inv
  have total := ok.total inv
  constructor
  case distinct => exact ok.distinct
  case found =>
    intro ref obj member
    obtain ⟨range, slot, gen⟩ := ok.held ref obj member
    rw [handleTableGet, if_pos range, handleTableGetChecked, if_pos ⟨range, gen⟩]
    exact ⟨slot, slot⟩
  case live =>
    intro id obj got
    have slot : a.table.slots id = some obj := by
      unfold handleTableGet at got
      split at got
      · exact got
      · cases got
    exact ok.covered id obj slot
  case full =>
    intro obj
    rcases Nat.eq_zero_or_pos frees.length with none' | some'
    · rw [eq_nil_of_length_eq_zero none'] at inv
      rw [inv.refuse]
      constructor
      · intro _
        omega
      · intro _
        rfl
    · obtain ⟨id, rest, t', result, taken, _⟩ := inv.insert some' obj
      rw [result]
      have range := ((inv.free id).mp taken.member).1
      constructor
      · intro zero
        exact absurd zero (Nat.ne_of_gt range.1)
      · intro whole
        omega
  case unused =>
    intro obj ref given notZero
    rcases Nat.eq_zero_or_pos frees.length with none' | some'
    · rw [eq_nil_of_length_eq_zero none'] at inv
      rw [inv.refuse] at given
      exact absurd (congrArg HandleRef.id given.symm) notZero
    · obtain ⟨id, _, _, result, taken, _⟩ := inv.insert some' obj
      rw [result] at given
      subst given
      obtain ⟨range, free⟩ := (inv.free id).mp taken.member
      exact ⟨range, by rw [handleTableGet, if_pos range, free]⟩
  case returns =>
    intro id range dead objs whole
    rw [handleTableGet, if_pos range] at dead
    exact inv.fill (by omega) ((inv.free id).mpr ⟨range, dead⟩)
  case stale =>
    intro few ref member
    obtain ⟨_, gen, le, last⟩ := ok.gone ref member
    unfold handleTableGetChecked
    split
    · next facts =>
        refine last ?_
        have bound := few ref.id
        have same := facts.2
        rw [ok.counted, gen, Nat.mod_eq_of_lt bound,
          Nat.mod_eq_of_lt (Nat.lt_of_le_of_lt le bound)] at same
        exact same.symm
    · rfl

/-- After every sequence of insertions and removals, under each policy, the
table keeps its contract. -/
theorem handle_table {capacity : Nat} (pos : 0 < capacity) (reuse : Reuse) {calls : List (Call α)}
    (run : Steps HandleTable.step (HandleTable.initial α capacity reuse) calls a) : Contract a := by
  have ok : Accounted a := run.invariant (fun _ _ _ old next => old.step next) (.initial pos reuse)
  exact ok.contract

/-- A table of two ids: it fills up, refuses, and reuses the id that was
freed. -/
def reused : List (Call Nat) :=
  [.insert 10, .insert 20, .insert 30, .remove 1, .insert 40]

theorem handle_table_reused :
    ∃ a, Steps HandleTable.step (HandleTable.initial Nat 3 .fifo) reused a ∧
      a.held = [(⟨1, 2⟩, 40), (⟨2, 1⟩, 20)] ∧ a.gone = [⟨1, 1⟩] ∧ Contract a := by
  have run : Steps HandleTable.step (HandleTable.initial Nat 3 .fifo) reused
      (reused.foldl exec (HandleTable.initial Nat 3 .fifo)) :=
    .cons rfl (.cons rfl (.cons rfl (.cons rfl (.cons rfl (.nil _)))))
  exact ⟨_, run, by decide, by decide, handle_table (by decide) .fifo run⟩

end Accounts

end MainDob.Kernel.HandleTable
