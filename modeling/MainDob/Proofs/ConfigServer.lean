/-
Purpose: Settings survive a restart.  A table of plain keys and values that fits in the buffer
  is written line by line and read back as the same map; so every file that the server has
  written since the last change stands for its table.
Main exports: PlainKey, PlainValue, config_persists
-/
import Mathlib.Data.List.Induction
import MainDob.Lib.Runs
import MainDob.Settings.ConfigServer
import MainDob.Proofs.StrHash

namespace MainDob.Config

open Libc.StrHash Lib
open List

/-- A key that the parser reads as it was written. -/
structure PlainKey (key : Str) : Prop where
  some : key ≠ []
  short : key.length < strhashMaxKey
  chars : ∀ c ∈ key, c ≠ 61 ∧ isBreak c = false ∧ c ≠ 0
  first : ∀ c ∈ key.head?, isBlank c = false ∧ c ≠ 35
  last : ∀ c ∈ key.getLast?, c ≠ 32

/-- A value that the parser reads as it was written. -/
structure PlainValue (value : Str) : Prop where
  short : value.length < strhashMaxVal
  chars : ∀ c ∈ value, isBreak c = false ∧ c ≠ 0
  first : ∀ c ∈ value.head?, isBlank c = false

/-! ### Lines -/

def printLine (pair : Str × Str) : Str := pair.1 ++ 61 :: pair.2 ++ [10]

/-- The pairs in the occupied entries. -/
def pairs (entries : List Entry) : List (Str × Str) :=
  (entries.filter (·.used = .occupied)).map fun e => (e.key, e.value)

theorem serializeLoop_eq (entries : List Entry) : ∀ out : Str,
    out.length + ((pairs entries).flatMap printLine).length < fileBufSize →
      serializeLoop out entries = out ++ (pairs entries).flatMap printLine := by
  induction entries with
  | nil =>
    intro out _
    exact (List.append_nil out).symm
  | cons e rest ih =>
    intro out fits
    unfold serializeLoop
    by_cases used : e.used = .occupied
    · have here : pairs (e :: rest) = (e.key, e.value) :: pairs rest := by simp [pairs, used]
      rw [here, flatMap_cons, length_append, printLine] at fits
      simp only [length_append, length_cons, length_nil] at fits
      rw [if_neg (not_not.mpr used), if_neg (by omega), here, flatMap_cons, ih]
      · simp [printLine]
      · simp only [length_append, length_cons, length_nil]
        omega
    · have here : pairs (e :: rest) = pairs rest := by simp [pairs, used]
      rw [here] at fits ⊢
      rw [if_pos used, ih out fits]

variable {key value : Str}

theorem parseLine_plain (plainKey : PlainKey key) (plain : PlainValue value) (db : Table) :
    parseLine (key ++ 61 :: value) db = (strhashSet db key value).2 := by
  have noEq : ∀ c ∈ key, decide (c ≠ 61) = true := fun c inside =>
    decide_eq_true (plainKey.chars c inside).1
  have trimmed : key.rdropWhile (· = 32) = key := by
    refine rdropWhile_eq_self_iff.mpr fun some blank => ?_
    exact plainKey.last _ (List.getLast?_eq_getLast_of_ne_nil some ▸ rfl) (of_decide_eq_true blank)
  have start : value.dropWhile isBlank = value := by
    match value with
    | [] => rfl
    | c :: _ => exact dropWhile_cons_of_neg (Bool.eq_false_iff.mp (plain.first c rfl))
  have whole : key.takeWhile (· ≠ 0) = key := takeWhile_eq_self_iff.mpr fun c inside =>
    decide_eq_true (plainKey.chars c inside).2.2
  have whole' : value.takeWhile (· ≠ 0) = value := takeWhile_eq_self_iff.mpr
    fun c inside => decide_eq_true (plain.chars c inside).2
  obtain ⟨c, rest, rfl⟩ := exists_cons_of_ne_nil plainKey.some
  unfold parseLine
  rw [takeWhile_append_of_pos noEq, dropWhile_append_of_pos noEq,
    takeWhile_cons_of_neg (by simp), dropWhile_cons_of_neg (by simp), List.append_nil]
  dsimp only
  rw [take_of_length_le (Nat.le_sub_one_of_lt plainKey.short),
    take_of_length_le (Nat.le_sub_one_of_lt plain.short), trimmed, start, whole, whole']

theorem parseRounds_line (plainKey : PlainKey key) (plain : PlainValue value) (rounds : Nat)
    (rest : Str) (db : Table) : parseRounds (rounds + 1) (printLine (key, value) ++ rest) db =
      parseRounds rounds rest (strhashSet db key value).2 := by
  have unbroken : ∀ c ∈ key ++ 61 :: value, (! isBreak c) = true := by
    intro c inside
    rcases mem_append.mp inside with inside | inside
    · rw [(plainKey.chars c inside).2.1]
      rfl
    · rcases mem_cons.mp inside with rfl | inside
      · rfl
      · rw [(plain.chars c inside).1]
        rfl
  have text : printLine (key, value) ++ rest = key ++ 61 :: value ++ 10 :: rest := by
    simp [printLine]
  have line := parseLine_plain plainKey plain db
  have first := plainKey.first
  have noBreak := fun c inside => (plainKey.chars c inside).2.1
  rw [text]
  obtain ⟨c, key, rfl⟩ := exists_cons_of_ne_nil plainKey.some
  have start := first c rfl
  rw [cons_append] at unbroken line
  rw [cons_append, cons_append]
  rw [parseRounds, dropWhile_cons_of_neg (by rw [start.1]; decide)]
  dsimp only
  rw [if_neg (by rw [noBreak c mem_cons_self]; simp [start.2]), ← cons_append,
    takeWhile_append_of_pos unbroken, dropWhile_append_of_pos unbroken,
    takeWhile_cons_of_neg (by decide), dropWhile_cons_of_neg (by decide), List.append_nil, line]
  rfl

/-- The pairs are set one after the other. -/
def setAll (db : Table) (l : List (Str × Str)) : Table :=
  l.foldl (fun db pair => (strhashSet db pair.1 pair.2).2) db

theorem parseRounds_lines (l : List (Str × Str))
    (plain : ∀ pair ∈ l, PlainKey pair.1 ∧ PlainValue pair.2) : ∀ (rounds : Nat) (db : Table),
    l.length ≤ rounds → parseRounds rounds (l.flatMap printLine) db = setAll db l := by
  induction l with
  | nil =>
    intro rounds db _
    cases rounds <;> rfl
  | cons pair l ih =>
    intro rounds db enough
    obtain ⟨rounds, rfl⟩ := Nat.exists_eq_succ_of_ne_zero (Nat.ne_zero_of_lt enough)
    obtain ⟨plainKey, plainValue⟩ := plain pair mem_cons_self
    rw [flatMap_cons, parseRounds_line plainKey plainValue,
      ih (fun p inside => plain p (mem_cons_of_mem _ inside)) _ _ (Nat.le_of_succ_le_succ enough)]
    rfl

/-! ### A table and its file -/

theorem mem_pairs {ht : Table} : (key, value) ∈ pairs ht.entries ↔
    Probing.Holds ht.capacity ht.slots key value := by
  constructor
  · intro inside
    obtain ⟨e, kept, same⟩ := mem_map.mp inside
    obtain ⟨member, used⟩ := mem_filter.mp kept
    obtain ⟨p, bound, here⟩ := getElem_of_mem member
    refine ⟨p, bound, slot_taken.mpr ?_⟩
    rw [entry_eq bound, here]
    exact ⟨of_decide_eq_true used, congrArg Prod.fst same, congrArg Prod.snd same⟩
  · rintro ⟨p, bound, taken⟩
    obtain ⟨used, rfl, rfl⟩ := slot_taken.mp taken
    exact mem_map.mpr ⟨_, mem_filter.mpr ⟨entry_mem bound, decide_eq_true used⟩, rfl⟩

theorem pairs_nodup {ht : Table} {m : Map} (means : ht.Means m) :
    ((pairs ht.entries).map Prod.fst).Nodup := by
  rw [pairs, map_map, List.Nodup, pairwise_map, pairwise_filter, pairwise_iff_getElem]
  intro p q inside within before used used' same
  rw [← entry_eq inside] at used same
  rw [← entry_eq within] at used' same
  exact absurd (means.isMap.oneSlot p inside q within (of_decide_eq_true used)
    (of_decide_eq_true used') same) (ne_of_lt before)

/-- A map that has just the pairs of a list. -/
def Lists (m : Map) (l : List (Str × Str)) : Prop := ∀ k v, m.lookup k = some v ↔ (k, v) ∈ l

theorem setAll_means {ht : Table} (start : ht.Means ∅) (l : List (Str × Str))
    (nodup : (l.map Prod.fst).Nodup) (room : l.length ≤ ht.capacity * 3 / 4)
    (fits : ∀ pair ∈ l, pair.1.length < strhashMaxKey ∧ pair.2.length < strhashMaxVal) :
    ∃ m, (setAll ht l).Means m ∧
    (setAll ht l).capacity = ht.capacity ∧ m.keys.card = l.length ∧ Lists m l := by
  induction l using List.reverseRec with
  | nil => exact ⟨∅, start, rfl, rfl, fun k v => by simp⟩
  | append_singleton l pair ih =>
    obtain ⟨key, value⟩ := pair
    rw [map_append, nodup_append] at nodup
    rw [length_append, length_singleton] at room
    obtain ⟨m, means, size, card, lists⟩ := ih nodup.1 (Nat.le_of_succ_le room)
      fun pair inside => fits pair (mem_append_left _ inside)
    have after := means.call (.set key value) (fits _ (mem_append_right _ (mem_singleton_self _)))
    have new : key ∉ l.map Prod.fst := fun inside =>
      nodup.2.2 _ inside _ (mem_singleton_self _) rfl
    have absent : key ∉ m := by
      rw [← Finmap.lookup_eq_none, Option.eq_none_iff_forall_not_mem]
      exact fun v there => new (mem_map_of_mem (f := Prod.fst) ((lists key v).mp there))
    have stored : (onMap ((setAll ht l).capacity * 3 / 4) m (.set key value)).2 =
        m.insert key value := congrArg Prod.snd (if_pos (.inr (by omega)))
    have last : setAll ht (l ++ [(key, value)]) = (strhashSet (setAll ht l) key value).2 := by
      simp [setAll]
    rw [last]
    refine ⟨m.insert key value, stored ▸ after.2, ?_, ?_, fun k v => ?_⟩
    · exact (capacity_call _ (.set key value)).trans size
    · rw [keys_insert, Finset.card_insert_of_notMem (mt Finmap.mem_keys.mp absent), card]
      simp
    · rw [mem_append, mem_singleton, Prod.mk.injEq]
      by_cases same : k = key
      · rw [same, Finmap.lookup_insert, Option.some.injEq]
        constructor
        · rintro rfl
          exact .inr ⟨rfl, rfl⟩
        · rintro (inside | ⟨_, rfl⟩)
          · exact absurd (mem_map_of_mem (f := Prod.fst) inside) new
          · rfl
      · rw [Finmap.lookup_insert_of_ne _ same, lists]
        simp [same]

theorem value_long {ht : Table} (good : ht.Good) (long : ¬ key.length < strhashMaxKey) :
    ht.value key = none := by
  unfold Table.value strhashFind
  split
  · rename_i i first
    obtain ⟨ends, bound, _⟩ := List.find?_range_eq_some.mp first
    have inside : ht.pos key i < ht.capacity :=
      good.pos_eq i ▸ Probing.place_lt (mem_range.mp bound) _
    have short := good.keys _ (entry_mem inside)
    have empty : (ht.entry (ht.pos key i)).used = .empty := by
      unfold Entry.ends at ends
      cases used : (ht.entry (ht.pos key i)).used with
      | empty => rfl
      | tombstone => simp [used] at ends
      | occupied =>
        simp only [used, strncmpSame, decide_eq_true_eq] at ends
        have length := congrArg List.length ends
        have fits := short used
        rw [length_take, length_take] at length
        omega
    rw [if_pos empty]
    rfl
  · rfl

/-- The lines of the table fit in the buffer. -/
def Fits (db : Table) : Prop := ((pairs db.entries).flatMap printLine).length < fileBufSize

/-- A table of plain pairs, no more than it has room for. -/
structure Plain (storage : Storage) (db : Table) : Prop where
  means : ∃ m, db.Means m ∧ ∀ k v, m.lookup k = some v → PlainKey k ∧ PlainValue v
  size : db.capacity = storage.capacity
  room : db.count ≤ db.capacity * 3 / 4

variable {storage : Storage} {db : Table}

theorem Plain.reload (plain : Plain storage db) (fits : Fits db) (key : Str) :
    (parseKeyvalue (serialize db) (strhashInit storage)).value key = db.value key := by
  obtain ⟨m, means, plainPairs⟩ := plain.means
  have power : ∃ k, storage.capacity = 2 ^ k := plain.size ▸ means.good.power
  have size : (strhashInit storage).capacity = storage.capacity := length_replicate
  have every : ∀ pair ∈ pairs db.entries, PlainKey pair.1 ∧ PlainValue pair.2 := fun pair inside =>
    plainPairs _ _ (means.holds.mpr (mem_pairs.mp inside))
  have count : (pairs db.entries).length = db.count := by
    rw [pairs, length_map, means.good.count, countP_eq_length_filter]
  have text : serialize db = (pairs db.entries).flatMap printLine :=
    serializeLoop_eq db.entries [] (by rw [length_nil, zero_add]; exact fits)
  have enough : (pairs db.entries).length ≤ ((pairs db.entries).flatMap printLine).length := by
    have some : ∀ n ∈ (pairs db.entries).map fun pair => (printLine pair).length, 1 ≤ n := by
      intro n inside
      obtain ⟨pair, _, rfl⟩ := mem_map.mp inside
      rw [printLine, length_append]
      exact Nat.le_add_left 1 _
    have sizes := length_le_sum_of_one_le _ some
    rwa [length_map, ← length_flatMap] at sizes
  obtain ⟨m', means', _, _, lists⟩ := setAll_means (means_init storage power) (pairs db.entries)
    (pairs_nodup means) (by rw [count, size, ← plain.size]; exact plain.room)
    fun pair inside => ⟨(every pair inside).1.short, (every pair inside).2.short⟩
  have same : m' = m := Finmap.ext_lookup fun k => Option.ext fun v =>
    (lists k v).trans (mem_pairs.trans means.holds.symm)
  rw [parseKeyvalue, text, parseRounds_lines _ every _ _ enough]
  by_cases short : key.length < strhashMaxKey
  · rw [means'.value_eq short, same, means.value_eq short]
  · rw [value_long means'.good short, value_long means.good short]

/-! ### Calls -/

theorem strhashSet_take (ht : Table) (key value : Str) :
    strhashSet ht key value = strhashSet ht key (value.take (strhashMaxVal - 1)) := by
  simp [strhashSet, strncpyArray, take_take]

theorem strhashSet_none {ht : Table} (none : (strhashSet ht key value).1 = none) :
    (strhashSet ht key value).2 = ht := by
  unfold strhashSet at none ⊢
  split at none
  · cases none
  · split at none <;> rename_i full
    · rw [if_pos full]
    · rw [if_neg full]
      split at none
      · cases none
      · rfl

theorem Plain.set (plain : Plain storage db) (plainKey : PlainKey key) (plainValue : PlainValue
    (value.take (strhashMaxVal - 1))) : Plain storage (strhashSet db key value).2 := by
  obtain ⟨m, means, plainPairs⟩ := plain.means
  rw [strhashSet_take]
  generalize value.take (strhashMaxVal - 1) = value at plainValue ⊢
  have after := (means.call (.set key value) ⟨plainKey.short, plainValue.short⟩).2
  have size := capacity_call db (.set key value)
  have room : db.count ≤ db.capacity * 3 / 4 := plain.room
  rw [← means.card] at room
  have step : (onMap (db.capacity * 3 / 4) m (.set key value)).2 =
      if key ∈ m ∨ m.keys.card < db.capacity * 3 / 4 then m.insert key value else m :=
    apply_ite Prod.snd ..
  rw [step] at after
  refine ⟨⟨_, after, fun k v holds => ?_⟩, size.trans plain.size, ?_⟩
  · split at holds
    · by_cases same : k = key
      · rw [same, Finmap.lookup_insert] at holds
        cases holds
        exact ⟨same ▸ plainKey, plainValue⟩
      · rw [Finmap.lookup_insert_of_ne _ same] at holds
        exact plainPairs k v holds
    · exact plainPairs k v holds
  · show (call db (.set key value)).2.count ≤ (call db (.set key value)).2.capacity * 3 / 4
    rw [size, ← after.card]
    split
    · rename_i open_
      rw [keys_insert]
      by_cases there : key ∈ m
      · rwa [Finset.insert_eq_of_mem (Finmap.mem_keys.mpr there)]
      · exact (Finset.card_insert_le _ _).trans (open_.resolve_left there)
    · exact room

theorem Plain.remove (plain : Plain storage db) (key : Str) :
    Plain storage (strhashRemove db key).2 := by
  obtain ⟨m, means, plainPairs⟩ := plain.means
  by_cases short : key.length < strhashMaxKey
  · have after : (strhashRemove db key).2.Means (m.erase key) := (means.call (.remove key) short).2
    have size : (strhashRemove db key).2.capacity = db.capacity := capacity_call db (.remove key)
    refine ⟨⟨_, after, fun k v holds => ?_⟩, size.trans plain.size, ?_⟩
    · by_cases same : k = key
      · rw [same, Finmap.lookup_erase] at holds
        cases holds
      · exact plainPairs k v ((Finmap.lookup_erase_ne same).symm.trans holds)
    · rw [size, ← after.card, Finmap.keys_erase]
      exact (Finset.card_erase_le).trans (means.card ▸ plain.room)
  · have absent : strhashFind db key = none :=
      Option.map_eq_none_iff.mp (value_long means.good short)
    rw [strhashRemove, absent]
    exact plain

/-- The file of a table that has not changed since gives its values back, after a restart. -/
def Saved (storage : Storage) (st : Store) : Prop :=
  st.dirty = false → ∀ text ∈ st.file, ∀ key,
    (parseKeyvalue text (strhashInit storage)).value key = st.db.value key

/-- What holds of a store between requests. -/
def Kept (storage : Storage) (st : Store) : Prop := Plain storage st.db ∧ Saved storage st

variable {st : Store}

theorem Kept.flush (kept : Kept storage st) {now : UInt32} (fits : st.due now → Fits st.db) :
    Kept storage (st.flush now) := by
  unfold Store.flush
  split
  · rename_i due
    refine ⟨kept.1, fun _ text written => ?_⟩
    cases written
    exact kept.1.reload (fits due)
  · exact kept

theorem Kept.set (kept : Kept storage st) (plainKey : PlainKey key) (plainValue : PlainValue
    (value.take (strhashMaxVal - 1))) (now : UInt32) : Kept storage (st.set key value now).2 := by
  have plain := kept.1.set plainKey plainValue
  unfold Store.set
  cases result : strhashSet st.db key value with
  | mk found db =>
    rw [result] at plain
    cases found with
    | some => exact ⟨plain, nofun⟩
    | none =>
      have same : db = st.db := by
        have unchanged := strhashSet_none (congrArg Prod.fst result)
        rwa [result] at unchanged
      cases same
      exact kept

/-! ### Runs -/

/-- A request, and the two readings of the clock. -/
abbrev Label := Request × UInt32 × UInt32

def step (s : Server) (label : Label) (s' : Server) : Prop :=
  (handleMessage s label.1 label.2.1 label.2.2).2 = s'

/-- What a request sets is plain, as it is cut, and a table that is written fits in the buffer. -/
def PlainStep (s : Server) (label : Label) : Prop :=
  (s.settings.due label.2.1 → Fits s.settings.db) ∧ (s.assoc.due label.2.1 → Fits s.assoc.db) ∧
    match label.1 with
    | .set key value | .setAssoc key value =>
      PlainKey key ∧ PlainValue (value.take (strhashMaxVal - 1))
    | _ => True

/-- A table after the start of the server: what the defaults and the files have set. -/
def Booted (storage : Storage) (st : Store) : Prop :=
  ∃ l : List (Str × Str), (∀ pair ∈ l, PlainKey pair.1 ∧ PlainValue pair.2) ∧
    st = ⟨setAll (strhashInit storage) l, false, 0, none⟩

theorem plain_init (power : ∃ k, storage.capacity = 2 ^ k) : Plain storage (strhashInit storage) :=
  ⟨⟨∅, means_init storage power, nofun⟩, length_replicate, Nat.zero_le _⟩

theorem Booted.kept (booted : Booted storage st) (power : ∃ k, storage.capacity = 2 ^ k) :
    Kept storage st := by
  obtain ⟨l, plain, rfl⟩ := booted
  refine ⟨?_, nofun⟩
  have start := plain_init power
  generalize strhashInit storage = db at start
  induction l generalizing db with
  | nil => exact start
  | cons pair l ih =>
    obtain ⟨plainKey, plainValue⟩ := plain pair mem_cons_self
    have cut := take_of_length_le (Nat.le_sub_one_of_lt plainValue.short)
    exact ih (fun p inside => plain p (mem_cons_of_mem _ inside)) _
      (start.set plainKey (cut.symm ▸ plainValue))

def Inv (s : Server) : Prop := Kept configStorage s.settings ∧ Kept assocStorage s.assoc

theorem inv_step {s s' : Server} {label : Label} (plain : PlainStep s label)
    (taken : step s label s') (inv : Inv s) : Inv s' := by
  obtain ⟨request, now, later⟩ := label
  obtain ⟨fits, fits', plain⟩ := plain
  have settings := inv.1.flush fits
  have assoc := inv.2.flush fits'
  cases taken
  cases request with
  | set key value => exact ⟨settings.set plain.1 plain.2 later, assoc⟩
  | setAssoc ext prog => exact ⟨settings, assoc.set plain.1 plain.2 later⟩
  | removeAssoc ext => exact ⟨settings, assoc.1.remove ext, nofun⟩
  | other => exact ⟨settings, assoc⟩

/-- After every run of plain requests, the files that were written since the last change give
every value back and no other key. -/
theorem config_persists {first last : Server} {labels : List Label}
    (settings : Booted configStorage first.settings) (assoc : Booted assocStorage first.assoc)
    (run : Steps (Guarded step PlainStep) first labels last) :
    Saved configStorage last.settings ∧ Saved assocStorage last.assoc := by
  have preserved : ∀ s label s', Inv s → Guarded step PlainStep s label s' → Inv s' :=
    fun _ _ _ inv taken => inv_step taken.2 taken.1 inv
  have kept : Inv last := run.invariant preserved ⟨settings.kept ⟨9, rfl⟩, assoc.kept ⟨7, rfl⟩⟩
  exact ⟨kept.1.2, kept.2.2⟩

/-- The server, started without files and defaults. -/
def bare : Server :=
  ⟨⟨strhashInit configStorage, false, 0, none⟩, ⟨strhashInit assocStorage, false, 0, none⟩⟩

/-- Two programs are set at time 0 and one is removed, and two seconds later
comes a request that flushes. -/
def changes : List Label :=
  [(.set [107] [118], 0, 0), (.setAssoc [46, 97] [47], 0, 0),
    (.setAssoc [46, 98] [47, 98], 0, 0), (.removeAssoc [46, 97], 0, 0), (.other, 2000, 2000)]

def after (labels : List Label) : Server :=
  labels.foldl (fun s label => (handleMessage s label.1 label.2.1 label.2.2).2) bare

theorem config_persists_one : Saved configStorage (after changes).settings ∧ Saved assocStorage
    (after changes).assoc ∧ (after changes).assoc.file = some [46, 98, 61, 47, 98, 10] := by
  have booted : ∀ storage, Booted storage ⟨strhashInit storage, false, 0, none⟩ := fun storage =>
    ⟨[], nofun, rfl⟩
  have run : Steps (Guarded step PlainStep) bare changes (after changes) := by
    refine .cons ⟨rfl, ?_, ?_, ⟨nofun, ?_, ?_, ?_, ?_⟩, ?_, ?_, ?_⟩
      (.cons ⟨rfl, ?_, ?_, ⟨nofun, ?_, ?_, ?_, ?_⟩, ?_, ?_, ?_⟩
        (.cons ⟨rfl, ?_, ?_, ⟨nofun, ?_, ?_, ?_, ?_⟩, ?_, ?_, ?_⟩
          (.cons ⟨rfl, ?_, ?_, trivial⟩ (.cons ⟨rfl, ?_, ?_, trivial⟩ (.nil _)))))
    all_goals try unfold Fits
    all_goals decide +kernel
  obtain ⟨settings, assoc⟩ := config_persists (booted _) (booted _) run
  exact ⟨settings, assoc, by decide +kernel⟩

/-- A key with an `=` is read back as another key. -/
theorem config_loses :
    ¬ Saved assocStorage (after [(.setAssoc [97, 61] [98], 0, 0), (.other, 2000, 2000)]).assoc := by
  intro saved
  have written : (after [(.setAssoc [97, 61] [98], 0, 0), (.other, 2000, 2000)]).assoc.file =
      some [97, 61, 61, 98, 10] := by
    decide +kernel
  have same := saved (by decide +kernel) _ written [97, 61]
  exact absurd same (by decide +kernel)

end MainDob.Config
