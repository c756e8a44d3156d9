/-
Purpose: The string table is a finite map. Every operation keeps the table probed, so that a
  search finds the slot of its key; what the slots hold then follows the map, operation by
  operation.
Main exports: Table.Good, Table.Means, strhash_is_a_map
-/
import Mathlib.Data.Finmap
import MainDob.Lib.Machines
import MainDob.Lib.Probing
import MainDob.Libc.StrHash

namespace MainDob.Libc.StrHash

open Lib.Probing Function
open List

/-! ### Entries as slots -/

def Entry.slot (e : Entry) : Slot Str Str :=
  match e.used with
  | .empty => .empty
  | .tombstone => .freed
  | .occupied => .taken e.key e.value

def Table.slots (ht : Table) (p : Nat) : Slot Str Str := (ht.entry p).slot

/-- A key that fits in an entry. -/
def Entry.KeyFits (e : Entry) : Prop := e.used = .occupied → e.key.length < strhashMaxKey

/-- What holds of a table between two calls. -/
structure Table.Good (ht : Table) : Prop where
  power : ∃ k, ht.capacity = 2 ^ k
  fits : ht.capacity * entrySize < 2 ^ 32
  probed : Probed ht.capacity (strhashFn · ht.capacity) ht.slots
  count : ht.count = ht.entries.countP (·.used = .occupied)
  keys : ∀ e ∈ ht.entries, e.KeyFits

variable {ht : Table} {key : Str} {p : Nat}

theorem slot_taken {e : Entry} {k v : Str} :
    e.slot = .taken k v ↔ e.used = .occupied ∧ e.key = k ∧ e.value = v := by
  unfold Entry.slot
  cases e.used <;> simp

theorem slot_empty {e : Entry} : e.slot = .empty ↔ e.used = .empty := by
  unfold Entry.slot
  cases e.used <;> simp

theorem entry_eq (inside : p < ht.entries.length) : ht.entry p = ht.entries[p] := by
  rw [Table.entry, getD_eq_getElem?_getD, List.getElem?_eq_getElem inside]
  rfl

theorem entry_mem (inside : p < ht.capacity) : ht.entry p ∈ ht.entries :=
  entry_eq inside ▸ getElem_mem inside

theorem slots_set (inside : p < ht.capacity) (e : Entry) (count : Nat) :
    Table.slots ⟨ht.entries.set p e, count⟩ = update ht.slots p e.slot := by
  funext q
  unfold Table.slots Table.entry
  rw [getD_eq_getElem?_getD, List.getElem?_set]
  by_cases here : p = q
  · cases here
    rw [if_pos rfl, update_self]
    exact congrArg (fun e' : Option Entry => (e'.getD {}).slot) (if_pos inside)
  · rw [if_neg here, update_of_ne (Ne.symm here), getD_eq_getElem?_getD]

theorem Table.Good.pos_eq (good : ht.Good) (i : Nat) :
    ht.pos key i = place ht.capacity (strhashFn key ht.capacity) i := by
  obtain ⟨k, power⟩ := good.power
  have below : 2 ^ k < 2 ^ 32 := by
    have fits := good.fits
    rw [power, entrySize, strhashMaxKey, strhashMaxVal] at fits
    omega
  have smaller : k ≤ 32 := le_of_lt ((Nat.pow_lt_pow_iff_right (by decide)).mp below)
  rw [Table.pos, place, power, Nat.and_two_pow_sub_one_eq_mod,
    Nat.mod_mod_of_dvd _ (Nat.pow_dvd_pow 2 smaller)]

/-! ### Searching -/

theorem ends_iff {e : Entry} (fits : e.KeyFits) (short : key.length < strhashMaxKey) :
    e.ends key = true ↔ e.slot = .empty ∨ ∃ v, e.slot = .taken key v := by
  simp only [slot_empty, slot_taken, exists_and_left, exists_eq', and_true]
  unfold Entry.ends
  cases used : e.used with
  | empty => simp
  | tombstone => simp
  | occupied =>
    have whole := take_of_length_le (le_of_lt (fits used))
    have whole' := take_of_length_le (le_of_lt short)
    simp [strncmpSame, whole, whole']

theorem Table.Good.find_iff (good : ht.Good) (short : key.length < strhashMaxKey) :
    strhashFind ht key = some p ↔ p < ht.capacity ∧ ∃ v, ht.slots p = .taken key v := by
  have stops : ∀ {i}, i < ht.capacity → ((ht.entry (ht.pos key i)).ends key = true ↔
      Stops ht.slots key (place ht.capacity (strhashFn key ht.capacity) i)) := by
    intro i bound
    rw [good.pos_eq, ends_iff (good.keys _ (entry_mem (place_lt bound _))) short]
    rfl
  unfold strhashFind
  constructor
  · intro found
    split at found
    · rename_i i first
      obtain ⟨ends, bound, _⟩ := List.find?_range_eq_some.mp first
      have bound := mem_range.mp bound
      split at found
      · cases found
      · rename_i full
        cases found
        have ends := (stops bound).mp ends
        rw [good.pos_eq] at full ⊢
        refine ⟨place_lt bound _, ends.resolve_left fun empty => full (slot_empty.mp empty)⟩
    · cases found
  · rintro ⟨inside, v, taken⟩
    obtain ⟨i, bound, here, _, before⟩ := good.probed.find_iff.mp ⟨inside, taken⟩
    have first : (List.range ht.capacity).find?
        (fun i => (ht.entry (ht.pos key i)).ends key) = some i := by
      refine List.find?_range_eq_some.mpr ⟨?_, mem_range.mpr bound, fun j earlier => ?_⟩
      · exact (stops bound).mpr (Or.inr ⟨v, here ▸ taken⟩)
      · rw [Bool.not_eq_true', Bool.eq_false_iff]
        exact mt (stops (lt_trans earlier bound)).mp (before j earlier)
    have full : (ht.entry p).used ≠ .empty := by
      rw [(slot_taken.mp taken).1]
      exact nofun
    have same : ht.pos key i = p := (good.pos_eq i).trans here
    rw [first]
    show (if (ht.entry (ht.pos key i)).used = .empty then none else some (ht.pos key i)) = some p
    rw [same, if_neg full]

theorem Table.Good.value_iff (good : ht.Good) (short : key.length < strhashMaxKey) {v : Str} :
    ht.value key = some v ↔ Holds ht.capacity ht.slots key v := by
  unfold Table.value
  rw [Option.map_eq_some_iff]
  constructor
  · rintro ⟨p, found, rfl⟩
    obtain ⟨inside, _, taken⟩ := (good.find_iff short).mp found
    obtain ⟨_, _, rfl⟩ := slot_taken.mp taken
    exact ⟨p, inside, taken⟩
  · rintro ⟨p, inside, taken⟩
    exact ⟨p, (good.find_iff short).mpr ⟨inside, v, taken⟩, (slot_taken.mp taken).2.2⟩

/-! ### One entry written -/

theorem Table.Good.write (good : ht.Good) (inside : p < ht.capacity) {e : Entry} {count : Nat}
    (probed : Probed ht.capacity (strhashFn · ht.capacity) (update ht.slots p e.slot))
    (counts : count + (if (ht.entry p).used = .occupied then 1 else 0) =
      ht.count + if e.used = .occupied then 1 else 0) (fits : e.KeyFits) :
    Table.Good ⟨ht.entries.set p e, count⟩ := by
  have same : Table.capacity ⟨ht.entries.set p e, count⟩ = ht.capacity := length_set
  constructor
  · rw [same]
    exact good.power
  · rw [same]
    exact good.fits
  · rw [same, slots_set inside]
    exact probed
  · show count = (ht.entries.set p e).countP _
    rw [List.countP_set inside, ← good.count]
    rw [← entry_eq inside]
    simp only [decide_eq_true_eq]
    have some : (if (ht.entry p).used = .occupied then 1 else 0) ≤ ht.count := by
      split
      · rename_i used
        rw [good.count]
        exact countP_pos_iff.mpr ⟨_, entry_mem inside, decide_eq_true used⟩
      · exact Nat.zero_le _
    omega
  · intro e' member
    rcases mem_or_eq_of_mem_set member with old | rfl
    · exact good.keys e' old
    · exact fits

/-! ### The map that a table stands for -/

abbrev Map := Finmap fun _ : Str => Str

/-- The table holds the pairs of the map. -/
structure Table.Means (ht : Table) (m : Map) : Prop where
  good : ht.Good
  holds : ∀ {k v}, m.lookup k = some v ↔ Holds ht.capacity ht.slots k v
  card : m.keys.card = ht.count

variable {m : Map} {value : Str}

theorem Table.Means.value_eq (means : ht.Means m) (short : key.length < strhashMaxKey) :
    ht.value key = m.lookup key :=
  Option.ext fun _ => (means.good.value_iff short).trans means.holds.symm

theorem Table.Means.find_none (means : ht.Means m) (short : key.length < strhashMaxKey) :
    strhashFind ht key = none ↔ key ∉ m := by
  rw [← Finmap.lookup_eq_none, ← means.value_eq short]
  exact Option.map_eq_none_iff.symm

theorem keys_insert (m : Map) : (m.insert key value).keys = Insert.insert key m.keys := by
  ext k
  rw [Finmap.mem_keys, Finmap.mem_insert, Finset.mem_insert, Finmap.mem_keys]

theorem Table.Means.put (means : ht.Means m) (inside : p < ht.capacity)
    (only : ∀ q < ht.capacity, ∀ v, ht.slots q = .taken key v → q = p)
    (mine : ∀ k v, ht.slots p = .taken k v → k = key) {k v : Str} :
    (m.insert key value).lookup k = some v ↔
      Holds ht.capacity (update ht.slots p (.taken key value)) k v := by
  by_cases same : k = key
  · cases same
    rw [Finmap.lookup_insert, holds_write_self inside only, Option.some.injEq, eq_comm]
  · rw [Finmap.lookup_insert_of_ne _ same, means.holds, holds_write_other inside _ ?_ same]
    rintro k' v (written | taken)
    · exact (Slot.taken.inj written).1.symm
    · exact mine k' v taken

theorem Table.Means.set_old (means : ht.Means m) (short : key.length < strhashMaxKey)
    (fits : value.length < strhashMaxVal) (found : strhashFind ht key = some p) :
    (strhashSet ht key value).1 = some p ∧
      (strhashSet ht key value).2.Means (m.insert key value) := by
  obtain ⟨inside, v, taken⟩ := (means.good.find_iff short).mp found
  obtain ⟨used, same, _⟩ := slot_taken.mp taken
  let e : Entry := { ht.entry p with value := strncpyArray strhashMaxVal value }
  have slot : e.slot = .taken key value :=
    slot_taken.mpr ⟨used, same, take_of_length_le (Nat.le_pred_of_lt fits)⟩
  have set : strhashSet ht key value = (some p, ⟨ht.entries.set p e, ht.count⟩) := by
    rw [strhashSet, found]
  have there : key ∈ m := Finmap.mem_of_lookup_eq_some (means.holds.mpr ⟨p, inside, taken⟩)
  rw [set]
  refine ⟨rfl, means.good.write inside ?_ rfl fun _ => same.symm ▸ short, ?_, ?_⟩
  · rw [slot]
    exact means.good.probed.rewrite value inside taken
  · intro k v
    rw [slots_set inside, slot, Table.capacity, length_set]
    refine means.put inside (fun q within w own => ?_) fun k v own => ?_
    · exact means.good.probed.unique within inside own taken
    · rw [taken] at own
      cases own
      rfl
  · rw [keys_insert, Finset.insert_eq_of_mem (Finmap.mem_keys.mpr there)]
    exact means.card

theorem Table.Good.limit (good : ht.Good) : ht.capacity * 3 % 2 ^ 32 / 4 = ht.capacity * 3 / 4 := by
  have fits := good.fits
  rw [entrySize, strhashMaxKey, strhashMaxVal] at fits
  rw [Nat.mod_eq_of_lt (by omega)]

theorem Table.Good.exists_room (good : ht.Good) (key : Str) (room : ht.count < ht.capacity) :
    ∃ i < ht.capacity, (List.range ht.capacity).find? (fun i =>
        (ht.entry (ht.pos key i)).used ≠ .occupied) = some i ∧ (ht.entry
      (ht.pos key i)).used ≠ .occupied ∧ ∀ j < i, (ht.entry (ht.pos key j)).used = .occupied := by
  have left : ∃ p < ht.capacity, (ht.entry p).used ≠ .occupied := by
    by_contra none
    push Not at none
    have all : ht.entries.countP (·.used = .occupied) = ht.capacity := by
      refine countP_eq_length.mpr fun e member => ?_
      obtain ⟨p, inside, rfl⟩ := getElem_of_mem member
      have used := none p inside
      rw [entry_eq inside] at used
      exact decide_eq_true used
    exact ne_of_lt room (good.count.trans all)
  obtain ⟨p, inside, free⟩ := left
  obtain ⟨i, bound, here⟩ := exists_place inside (strhashFn key ht.capacity)
  cases first : (List.range ht.capacity).find? (fun i =>
      (ht.entry (ht.pos key i)).used ≠ .occupied) with
  | none =>
    have full := List.find?_range_eq_none.mp first i bound
    rw [good.pos_eq, here] at full
    simp [free] at full
  | some i =>
    obtain ⟨free, bound, before⟩ := List.find?_range_eq_some.mp first
    refine ⟨i, mem_range.mp bound, rfl, of_decide_eq_true free, fun j earlier => ?_⟩
    simpa using before j earlier

theorem Table.Means.set_new (means : ht.Means m) (short : key.length < strhashMaxKey)
    (fits : value.length < strhashMaxVal) (absent : strhashFind ht key = none)
    (room : ht.count < ht.capacity * 3 / 4) : (strhashSet ht key value).1.isSome ∧
      (strhashSet ht key value).2.Means (m.insert key value) := by
  obtain ⟨i, bound, first, free, before⟩ := means.good.exists_room key (by omega)
  have new := (means.find_none short).mp absent
  let e : Entry :=
    { key := strncpyArray strhashMaxKey key
      value := strncpyArray strhashMaxVal value
      used := .occupied }
  have whole : e.key = key := take_of_length_le (Nat.le_pred_of_lt short)
  have slot : e.slot = .taken key value :=
    slot_taken.mpr ⟨rfl, whole, take_of_length_le (Nat.le_pred_of_lt fits)⟩
  have set : strhashSet ht key value =
      (some (ht.pos key i), ⟨ht.entries.set (ht.pos key i) e, ht.count + 1⟩) := by
    rw [strhashSet, absent, means.good.limit]
    rw [if_neg (Nat.not_le.mpr room), first]
  have inside : ht.pos key i < ht.capacity := means.good.pos_eq i ▸ place_lt bound _
  have missing : ∀ v, ¬ Holds ht.capacity ht.slots key v := fun v holds =>
    new (Finmap.mem_of_lookup_eq_some (means.holds.mpr holds))
  rw [set]
  refine ⟨rfl, means.good.write inside ?_ ?_ fun _ => whole.symm ▸ short, ?_, ?_⟩
  · rw [slot, means.good.pos_eq]
    refine means.good.probed.insert value missing bound fun j earlier empty => ?_
    have used := before j earlier
    rw [means.good.pos_eq, slot_empty.mp empty] at used
    cases used
  · rw [if_neg free, if_pos rfl]
  · intro k v
    rw [slots_set inside, slot, Table.capacity, length_set]
    refine means.put inside (fun q within w own => ?_) fun k v own => ?_
    · exact absurd ⟨q, within, own⟩ (missing w)
    · exact absurd (slot_taken.mp own).1 free
  · rw [keys_insert, Finset.card_insert_of_notMem (mt Finmap.mem_keys.mp new), means.card]

theorem Table.Means.remove (means : ht.Means m) (short : key.length < strhashMaxKey)
    (found : strhashFind ht key = some p) :
    (strhashRemove ht key).1 = true ∧ (strhashRemove ht key).2.Means (m.erase key) := by
  obtain ⟨inside, v, taken⟩ := (means.good.find_iff short).mp found
  obtain ⟨used, _, _⟩ := slot_taken.mp taken
  let e : Entry := { ht.entry p with used := .tombstone, key := [] }
  have remove : strhashRemove ht key = (true, ⟨ht.entries.set p e, ht.count - 1⟩) := by
    rw [strhashRemove, found]
  have there : key ∈ m := Finmap.mem_of_lookup_eq_some (means.holds.mpr ⟨p, inside, taken⟩)
  have card : (m.erase key).keys.card = ht.count - 1 := by
    rw [Finmap.keys_erase, Finset.card_erase_of_mem (Finmap.mem_keys.mpr there), means.card]
  have some : 0 < ht.count := means.card ▸ Finset.card_pos.mpr ⟨key, Finmap.mem_keys.mpr there⟩
  rw [remove]
  refine ⟨rfl, means.good.write inside (means.good.probed.free p) ?_ nofun, ?_, card⟩
  · rw [if_pos used, if_neg nofun]
    omega
  · intro k v
    rw [slots_set inside, Table.capacity, length_set]
    show _ ↔ Holds ht.capacity (update ht.slots p .freed) k v
    by_cases same : k = key
    · rw [same, Finmap.lookup_erase, holds_write inside]
      constructor
      · nofun
      · rintro (freed | ⟨_, within, apart, own⟩)
        · cases freed
        · exact absurd (means.good.probed.unique within inside own taken) apart
    · rw [Finmap.lookup_erase_ne same, means.holds, holds_write_other inside _ ?_ same]
      rintro k' w (freed | own)
      · cases freed
      · rw [taken] at own
        cases own
        rfl

/-! ### Sequences of calls -/

inductive Op where
  | find (key : Str)
  | set (key value : Str)
  | remove (key : Str)

/-- The key and the value are shorter than their arrays. -/
def Op.Fits : Op → Prop
  | .find key => key.length < strhashMaxKey
  | .set key value => key.length < strhashMaxKey ∧ value.length < strhashMaxVal
  | .remove key => key.length < strhashMaxKey

instance : DecidablePred Op.Fits
  | .find _ | .remove _ => inferInstanceAs (Decidable (_ < _))
  | .set _ _ => inferInstanceAs (Decidable (_ ∧ _))

inductive Outcome where
  | found (value : Option Str)
  | stored (done : Bool)
  | removed (was : Bool)

/-- A call on a table. -/
def call (ht : Table) : Op → Outcome × Table
  | .find key => (.found (ht.value key), ht)
  | .set key value =>
    (.stored (strhashSet ht key value).1.isSome, (strhashSet ht key value).2)
  | .remove key => (.removed (strhashRemove ht key).1, (strhashRemove ht key).2)

/-- The same call on a finite map, with room for so many keys. -/
def onMap (limit : Nat) (m : Map) : Op → Outcome × Map
  | .find key => (.found (m.lookup key), m)
  | .set key value =>
    if key ∈ m ∨ m.keys.card < limit then (.stored true, m.insert key value)
    else (.stored false, m)
  | .remove key => (.removed (key ∈ m), m.erase key)

theorem capacity_call (ht : Table) (op : Op) : (call ht op).2.capacity = ht.capacity := by
  cases op with
  | find => rfl
  | set key value =>
    show (strhashSet ht key value).2.capacity = _
    unfold strhashSet
    split
    · exact length_set
    · split
      · rfl
      · split
        · exact length_set
        · rfl
  | remove key =>
    show (strhashRemove ht key).2.capacity = _
    unfold strhashRemove
    split
    · exact length_set
    · rfl

theorem Table.Means.call (means : ht.Means m) (op : Op) (fits : op.Fits) : (call ht op).1 = (onMap
    (ht.capacity * 3 / 4) m op).1 ∧ (call ht op).2.Means (onMap (ht.capacity * 3 / 4) m op).2 := by
  cases op with
  | find key => exact ⟨congrArg _ (means.value_eq fits), means⟩
  | set key value =>
    obtain ⟨short, fits⟩ := fits
    have onMap_set : onMap (ht.capacity * 3 / 4) m (.set key value) =
        if key ∈ m ∨ m.keys.card < ht.capacity * 3 / 4 then (.stored true, m.insert key value)
        else (.stored false, m) := rfl
    show Outcome.stored (strhashSet ht key value).1.isSome = _ ∧ (strhashSet ht key value).2.Means _
    rw [onMap_set]
    cases found : strhashFind ht key with
    | some p =>
      have there : key ∈ m := by
        by_contra absent
        rw [← means.find_none short, found] at absent
        cases absent
      obtain ⟨at_p, after⟩ := means.set_old short fits found
      rw [if_pos (Or.inl there), at_p]
      exact ⟨rfl, after⟩
    | none =>
      have absent := (means.find_none short).mp found
      by_cases room : ht.count < ht.capacity * 3 / 4
      · obtain ⟨done, after⟩ := means.set_new short fits found room
        rw [if_pos (Or.inr (means.card ▸ room)), done]
        exact ⟨rfl, after⟩
      · have full : strhashSet ht key value = (none, ht) := by
          rw [strhashSet, found, means.good.limit]
          exact if_pos (Nat.not_lt.mp room)
        rw [if_neg (not_or.mpr ⟨absent, means.card ▸ room⟩), full]
        exact ⟨rfl, means⟩
  | remove key =>
    show Outcome.removed (strhashRemove ht key).1 = Outcome.removed (key ∈ m) ∧
      (strhashRemove ht key).2.Means (m.erase key)
    cases found : strhashFind ht key with
    | some p =>
      have there : key ∈ m := by
        by_contra absent
        rw [← means.find_none fits, found] at absent
        cases absent
      obtain ⟨was, after⟩ := means.remove fits found
      rw [was, decide_eq_true there]
      exact ⟨rfl, after⟩
    | none =>
      have absent := (means.find_none fits).mp found
      have same : m.erase key = m := by
        refine Finmap.ext_lookup fun k => ?_
        by_cases here : k = key
        · rw [here, Finmap.lookup_erase, Finmap.lookup_eq_none.mpr absent]
        · exact Finmap.lookup_erase_ne here
      rw [strhashRemove, found, same, decide_eq_false absent]
      exact ⟨rfl, means⟩

theorem means_init (storage : Storage) (power : ∃ k, storage.capacity = 2 ^ k) :
    (strhashInit storage).Means ∅ := by
  have size : (strhashInit storage).capacity = storage.capacity := length_replicate
  have clear : ∀ p, (strhashInit storage).slots p = .empty := by
    intro p
    show Entry.slot ((List.replicate _ {}).getD p {}) = .empty
    rw [getD_eq_getElem?_getD, List.getElem?_replicate]
    split <;> rfl
  have fresh : ∀ e ∈ (strhashInit storage).entries, e = {} := fun e member =>
    eq_of_mem_replicate member
  constructor
  · constructor
    · rw [size]
      exact power
    · rw [size]
      exact storage.fits
    · exact probed_empty clear
    · refine (countP_eq_zero.mpr fun e member => ?_).symm
      rw [fresh e member]
      decide
    · intro e member
      rw [fresh e member]
      exact nofun
  · intro k v
    constructor
    · nofun
    · rintro ⟨p, _, taken⟩
      cases (clear p).symm.trans taken
  · rfl

/-- What it means for a table to be a finite map. -/
structure Table.IsMap (ht : Table) (m : Map) : Prop where
  values : ∀ key : Str, key.length < strhashMaxKey → ht.value key = m.lookup key
  oneSlot : ∀ p < ht.capacity, ∀ q < ht.capacity, (ht.entry p).used = .occupied →
    (ht.entry q).used = .occupied → (ht.entry p).key = (ht.entry q).key → p = q
  others : ∀ key other : Str, key.length < strhashMaxKey → other.length < strhashMaxKey →
    other ≠ key → (strhashRemove ht key).2.value other = ht.value other
  count : ht.count = ht.entries.countP (·.used = .occupied)
  full : ∀ key value : Str, key.length < strhashMaxKey → value.length < strhashMaxVal →
    strhashFind ht key = none →
      ((strhashSet ht key value).1 = none ↔ ht.capacity * 3 / 4 ≤ ht.count)

theorem Table.Means.isMap (means : ht.Means m) : ht.IsMap m where
  values _ short := means.value_eq short
  oneSlot p inside q within first second same := by
    exact means.good.probed.unique inside within (slot_taken.mpr ⟨first, same, rfl⟩)
      (slot_taken.mpr ⟨second, rfl, rfl⟩)
  others key other short fits apart := by
    have after := (means.call (.remove key) short).2
    refine (after.value_eq fits).trans ?_
    exact (Finmap.lookup_erase_ne apart).trans (means.value_eq fits).symm
  count := means.good.count
  full key value short fits absent := by
    rw [← means.good.limit]
    constructor
    · intro none
      by_contra room
      rw [not_le, means.good.limit] at room
      have done := (means.set_new short fits absent room).1
      rw [none] at done
      cases done
    · intro full
      rw [strhashSet, absent]
      exact congrArg Prod.fst (if_pos full)

/-- Whatever is set, found and removed, the table does what a finite map does. -/
theorem strhash_is_a_map (storage : Storage) (power : ∃ k, storage.capacity = 2 ^ k) (ops : List Op)
    (fit : ∀ op ∈ ops, op.Fits) : let table := Lib.answers call (strhashInit storage) ops
    let map := Lib.answers (onMap (storage.capacity * 3 / 4)) ∅ ops
    table.1 = map.1 ∧ table.2.IsMap map.2 := by
  have same := Lib.answers_same call (onMap (storage.capacity * 3 / 4)) (fun ht m => ht.Means m ∧
    ht.capacity = storage.capacity) (fun ht m ⟨means, size⟩ op (member : op ∈ ops) => by
      obtain ⟨same, after⟩ := means.call op (fit op member)
      rw [size] at same after
      exact ⟨same, after, (capacity_call ht op).trans size⟩)
    ⟨means_init storage power, length_replicate⟩
  exact ⟨same.1, same.2.1.isMap⟩

/-- The second key collides with the first in the last slot and goes to slot 0;
the third one takes the slot of the first, which was removed. -/
theorem strhash_is_a_map_four : let ops : List Op := [.set [98] [49], .set [102] [50], .remove [98],
      .set [106] [51], .find [102], .find [98]]
    let run := Lib.answers call (strhashInit ⟨4, by decide⟩) ops
    strhashFind run.2 [102] = some 0 ∧
      strhashFind run.2 [106] = some 3 ∧ strhashFind run.2 [98] = none ∧
      run.1 = (Lib.answers (onMap 3) ∅ ops).1 ∧ run.2.IsMap (Lib.answers (onMap 3) ∅ ops).2 := by
  intro ops run
  refine ⟨by decide +kernel, by decide +kernel, by decide +kernel, ?_⟩
  exact strhash_is_a_map ⟨4, by decide⟩ ⟨2, rfl⟩ ops (by decide)

end MainDob.Libc.StrHash
