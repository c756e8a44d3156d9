/-
Purpose: What a directory shows after an addition. In a well-formed directory the new records are
  listed between those before and behind their place, which are shown as they were; the new entry
  is found by its name where the name can be stored.
Main exports: Orderly, Addition.shown, dir_add_find
-/
import MainDob.Proofs.LongNames

namespace MainDob.Fs.Fat

open Function (update update_of_ne update_self)
open List Option

/-! ### Well-formed directories -/

/-- Behind the first record that was never used, none is in use; every long name
is followed by its entry. -/
structure Orderly (v : Volume) (cs : List Nat) : Prop where
  ended : ∀ before found rest, records v cs = before ++ found :: rest →
    found.slot.mark = 0 → ∀ later ∈ rest, later.slot.mark = 0
  whole : ∀ before found rest, records v cs = before ++ found ::
    rest → Slot.vacant found.slot = true → (stateAfter before LfnState.start).hasLfn = false
  complete : (stateAfter (records v cs) LfnState.start).hasLfn = false

/-! ### Records of parts of a chain -/

theorem located_append (cluster : Nat) : ∀ (slots more : List Slot) (index : Nat),
    located cluster (slots ++ more) index =
      located cluster slots index ++ located cluster more (index + slots.length)
  | [], _, _ => rfl
  | slot :: rest, more, index => by
    rw [cons_append, located_cons, located_cons,
      located_append cluster rest more, length_cons, cons_append, add_assoc, add_comm 1]

/-- The records of a cluster as a scan takes them. -/
def viewed (isLast : Bool) (slots : List Slot) : List Slot :=
  if isLast then slots else patched slots

theorem viewed_append (isLast : Bool) (slots more : List Slot) :
    viewed isLast (slots ++ more) = viewed isLast slots ++ viewed isLast more := by
  unfold viewed patched
  split
  · rfl
  · exact map_append

theorem viewed_length (isLast : Bool) (slots : List Slot) :
    (viewed isLast slots).length = slots.length := by
  unfold viewed
  split
  · rfl
  · exact patched_length slots

variable {slots : List Slot}

theorem patched_used (used : ∀ slot ∈ slots, slot.mark ≠ 0) : patched slots = slots := by
  refine patched_eq_self (fun zeros => ?_)
  obtain ⟨slot, member, zero⟩ := any_eq_true.mp zeros
  exact used slot member (beq_iff_eq.mp zero)

variable {isLast : Bool}

theorem viewed_used (used : ∀ slot ∈ slots, slot.mark ≠ 0) : viewed isLast slots = slots := by
  unfold viewed
  rw [patched_used used]
  exact ite_self _

theorem patched_marks (slots : List Slot) : ∀ slot ∈ patched slots, slot.mark ≠ 0 := by
  intro slot member
  obtain ⟨_, _, rfl⟩ := mem_map.mp member
  split
  · exact deletedMark_ne
  · next used => exact used

theorem viewed_vacant (vacant : ∀ slot ∈ slots, Slot.vacant slot = true) :
    ∀ slot ∈ viewed isLast slots, Slot.vacant slot = true := by
  intro slot member
  unfold viewed at member
  split at member
  · exact vacant slot member
  obtain ⟨old, there, rfl⟩ := mem_map.mp member
  split
  · rfl
  · exact vacant old there

variable {cluster : Nat}

theorem mem_located : ∀ {slots : List Slot} {index : Nat}
    {found : Found}, found ∈ located cluster slots index →
    found.slot ∈ slots ∧ found.cluster = cluster
  | [], _, _, member => by cases member
  | slot :: rest, index, found, member => by
    rcases mem_cons.mp member with rfl | later
    · exact ⟨mem_cons_self, rfl⟩
    · obtain ⟨there, here⟩ := mem_located later
      exact ⟨mem_cons_of_mem _ there, here⟩

/-- The records of clusters that have a successor. -/
def innerRecords (v : Volume) (cs : List Nat) : List Found :=
  cs.flatMap fun cluster => located cluster (patched (v.slots cluster)) 0

theorem records_split (v : Volume) (cluster : Nat) (after : List Nat) :
    ∀ before : List Nat, records v (before ++ cluster :: after) = innerRecords v before ++
        (located cluster (viewed after.isEmpty (v.slots cluster)) 0 ++ records v after)
  | [] => by
    cases after with
    | nil =>
      unfold records innerRecords
      rw [flatMap_nil, append_nil]
      rfl
    | cons => rfl
  | first :: before => by
    have more := records_split v cluster after before
    unfold innerRecords at more ⊢
    rw [flatMap_cons, append_assoc, ← more]
    cases before with
    | nil => rfl
    | cons => rfl

theorem innerRecords_marks (v : Volume) (cs : List Nat) :
    ∀ found ∈ innerRecords v cs, found.slot.mark ≠ 0 := by
  intro found member
  obtain ⟨_, _, there⟩ := mem_flatMap.mp member
  exact patched_marks _ _ (mem_located there).1

theorem innerRecords_same {v v' : Volume} {cs : List Nat}
    (same : ∀ other ∈ cs, v'.slots other = v.slots other) :
    innerRecords v' cs = innerRecords v cs := by
  refine flatMap_congr (fun other member => ?_)
  rw [same other member]

theorem records_same {v v' : Volume} : ∀ {cs : List Nat},
    (∀ other ∈ cs, v'.slots other = v.slots other) → records v' cs = records v cs
  | [], _ => rfl
  | [last], same => by
    unfold records
    rw [same last mem_cons_self]
  | cluster :: next :: rest, same => by
    have later : records v' (next :: rest) = records v (next :: rest) :=
      records_same (fun other member => same other (mem_cons_of_mem _ member))
    unfold records
    rw [same cluster mem_cons_self, later]

/-! ### The listing of the new records -/

theorem listing_parts (cluster : Nat) (rest : List Found) : ∀ (parts : List Slot),
    (∀ part ∈ parts, part.mark ≠ 0 ∧ part.mark ≠ deletedMark ∧
      part.attr = attrLfn) → ∀ (index : Nat) (state : LfnState),
    listing (located cluster parts index ++ rest) state =
      listing rest (parts.foldl LfnState.meet state)
  | [], _, _, _ => rfl
  | part :: parts, kinds, index, state => by
    obtain ⟨used, kept, kind⟩ := kinds part mem_cons_self
    rw [located_cons, cons_append, listing_used used kept, if_pos kind,
      listing_parts cluster rest parts (fun other member => kinds other (mem_cons_of_mem _ member)),
      foldl_cons]

/-- The short entry of a name. -/
def storedSlot (short : List Char) (first size attr : Nat) : Slot :=
  ⟨(short.headD ' ').toNat, short.drop 1, attr, first, size⟩

theorem storedSlot_mark (short : List Char) (first size attr : Nat) :
    (storedSlot short first size attr).mark = (short.headD ' ').toNat := rfl

/-- The name a new entry is shown under. -/
def shownName (name : Path) (slot : Slot) : Path :=
  if needsLfn name then name.take 260 else decode83Name slot

/-- What the records of a new entry show. -/
def newShown (name : Path) (slot : Slot) (cluster index : Nat) : List Shown :=
  if slot.mark = deletedMark then []
  else [⟨⟨slot, cluster, index⟩, needsLfn name, shownName name slot⟩]

/-- A name as the handlers pass one: the last component of a path. -/
structure Passable (name : Path) : Prop where
  some' : 0 < name.length
  short : name.length < pathMax
  text : '\x00' ∉ name

theorem Passable.few {name : Path} (passable : Passable name) : lfnCount name < 64 := by
  have short := passable.short
  unfold lfnCount pathMax at *
  split
  · omega
  · decide

theorem newEntries_eq (name : Path) (short : List Char) (first size attr : Nat) :
    newEntries name (lfnCount name) short first size attr =
      lfnParts name (lfnCount name) ++ [storedSlot short first size attr] := rfl

/-- The records of a new name are read as that name, and what follows as before. -/
theorem listing_new {name : Path} (passable : Passable name) {short : List Char}
    {first size attr : Nat} (used : (storedSlot short first size attr).mark ≠ 0)
    (entry : attr.testBit 3 = false) (cluster index : Nat) (rest : List Found)
    {state : LfnState} (idle : state.hasLfn = false) : listing (located cluster
        (newEntries name (lfnCount name) short first size attr) index ++ rest) state = newShown name
      (storedSlot short first size attr) cluster (index + lfnCount name) ++ listing rest state := by
  have last : ∀ state : LfnState, listing (located cluster [storedSlot short first size attr]
        (index + lfnCount name) ++ rest) state =
      if (storedSlot short first size attr).mark = deletedMark then
        listing rest state.idle
      else ⟨⟨storedSlot short first size attr, cluster, index + lfnCount name⟩, state.hasLfn,
        state.nameOf (storedSlot short first size attr)⟩ :: listing rest state.idle := by
    intro state
    change listing (⟨storedSlot short first size attr, cluster, _⟩ :: rest) state = _
    have volume : ¬Slot.volumeId (storedSlot short first size attr) = true := by
      unfold Slot.volumeId storedSlot
      rw [entry]
      exact Bool.false_ne_true
    split
    · next deleted => rw [listing_deleted deleted]
    next kept =>
      have part : ¬(storedSlot short first size attr).attr = attrLfn := volume_not_lfn entry
      rw [listing_used used kept]
      rw [if_neg part, if_neg volume]
  rw [newEntries_eq, located_append, append_assoc, lfnParts_length,
    listing_parts cluster _ _ (lfnParts_kinds passable.few), last]
  have rests : ∀ state : LfnState, listing rest state.idle = listing rest
      (LfnState.mk false []) := fun state => listing_of_idle rfl rfl
  have rest' : listing rest state = listing rest (LfnState.mk false []) := listing_of_idle idle rfl
  rw [rests, rest']
  unfold newShown shownName
  by_cases long : needsLfn name = true
  · have count : lfnCount name = (name.length + 12) / 13 := if_pos long
    rw [parts_met passable.some' count passable.few]
    unfold LfnState.nameOf
    rw [if_pos rfl, assembled_name passable.text count, if_pos long, long]
    split <;> rfl
  · have count : lfnCount name = 0 := if_neg long
    have none : lfnParts name (lfnCount name) = [] := by
      rw [count]
      rfl
    rw [none, foldl_nil]
    unfold LfnState.nameOf
    rw [idle, if_neg Bool.false_ne_true, if_neg long, eq_false_of_ne_true long]
    split <;> rfl

/-! ### The listing after an addition -/

theorem listing_zeros : ∀ {rest : List Found} {state : LfnState},
    (∀ found ∈ rest, found.slot.mark = 0) → listing rest state = []
  | [], _, _ => rfl
  | found :: _, _, zeros => listing_end (zeros found mem_cons_self)

/-- A run of vacant records shows nothing. -/
theorem listing_replaced {v : Volume} {cs : List Nat} (orderly : Orderly v cs)
    {before run after : List Found} (split : records v cs = before ++ run ++ after)
    (some' : run ≠ []) (vacant : ∀ found ∈ run, Slot.vacant found.slot = true)
    (used : ∀ found ∈ before, found.slot.mark ≠ 0) :
    shown v cs = listing before LfnState.start ++ listing after (stateAfter before LfnState.start) ∧
      (stateAfter before LfnState.start).hasLfn = false := by
  have idle : (stateAfter before LfnState.start).hasLfn = false := by
    cases run with
    | nil => exact absurd rfl some'
    | cons found run =>
      refine orderly.whole before found (run ++ after) ?_ (vacant found mem_cons_self)
      rw [split, append_assoc, cons_append]
  refine ⟨?_, idle⟩
  unfold shown
  rw [split, append_assoc, listing_append used, listing_vacant vacant after idle]
  split
  · next zero =>
      -- nothing is in use behind a record that never was
      obtain ⟨found, member, ends⟩ := any_eq_true.mp zero
      obtain ⟨front, back, cut⟩ := append_of_mem member
      have behind := orderly.ended (before ++ front) found (back ++ after)
        (by rw [split, cut]; simp) (beq_iff_eq.mp ends)
      rw [listing_zeros (fun later there => behind later (mem_append_right _ there))]
  · rfl

/-- The record with its mark of zero rewritten. -/
def patchFound (found : Found) : Found :=
  { found with slot := if found.slot.mark = 0 then
      { found.slot with mark := deletedMark } else found.slot }

theorem located_patched (cluster : Nat) : ∀ (slots : List Slot) (index : Nat),
    located cluster (patched slots) index = (located cluster slots index).map patchFound
  | [], _ => rfl
  | slot :: rest, index => by
    rw [patched_cons, located_cons, located_cons, map_cons, located_patched cluster rest]
    rfl

theorem patchFound_used {entries : List Found} (used : ∀ found ∈ entries, found.slot.mark ≠ 0) :
    entries.map patchFound = entries := by
  refine (map_congr_left (fun found member => ?_)).trans (map_id _)
  unfold patchFound
  rw [if_neg (used found member)]
  rfl

theorem split_zeros (entries : List Found) : ∃ front back,
    entries = front ++ back ∧ (∀ found ∈ front, found.slot.mark ≠ 0) ∧
      ∀ found, back.head? = some found → found.slot.mark = 0 := by
  refine ⟨entries.takeWhile (·.slot.mark != 0), entries.dropWhile (·.slot.mark != 0),
    takeWhile_append_dropWhile.symm, ?_, ?_⟩
  · intro found member
    have kept := mem_takeWhile_imp member
    exact bne_iff_ne.mp kept
  · intro found first
    have stops := List.head?_dropWhile_not (·.slot.mark != 0) entries
    rw [first] at stops
    exact bne_eq_false_iff_eq.mp (by simpa using stops)

/-- Records behind an orderly directory are read on their own. -/
theorem listing_extended {v : Volume} {cs : List Nat} (orderly : Orderly v cs) (more : List Found) :
    ∃ state : LfnState, state.hasLfn = false ∧ listing ((records v cs).map patchFound ++
      more) LfnState.start = shown v cs ++ listing more state := by
  obtain ⟨front, back, split, used, zero⟩ := split_zeros (records v cs)
  have same := patchFound_used used
  cases back with
  | nil =>
    rw [append_nil] at split
    refine ⟨stateAfter (records v cs) LfnState.start, orderly.complete, ?_⟩
    rw [← split] at same used
    unfold shown
    rw [same, listing_append used]
  | cons found rest =>
    have first := zero found rfl
    have behind := orderly.ended front found rest split first
    have idle := orderly.whole front found rest split (by
      unfold Slot.vacant
      rw [first]
      rfl)
    have deleted : ∀ other ∈ (found :: rest).map patchFound, other.slot.mark = deletedMark := by
      intro other member
      obtain ⟨old, there, rfl⟩ := mem_map.mp member
      have none : old.slot.mark = 0 := by
        rcases mem_cons.mp there with rfl | later
        · exact first
        · exact behind old later
      unfold patchFound
      rw [if_pos none]
    have vacant : ∀ other ∈ (found :: rest).map patchFound, Slot.vacant other.slot = true := by
      intro other member
      unfold Slot.vacant
      rw [deleted other member]
      rfl
    have never : ¬((found :: rest).map patchFound).any
        (fun other => other.slot.mark == 0) = true := by
      intro zeros
      obtain ⟨other, member, none⟩ := any_eq_true.mp zeros
      rw [deleted other member] at none
      exact absurd none (by decide)
    refine ⟨stateAfter front LfnState.start, idle, ?_⟩
    unfold shown
    rw [split, map_append, same, append_assoc, listing_append used, listing_vacant vacant more idle,
      if_neg never, listing_append used, listing_end first, append_nil]

theorem newEntries_marks {name : Path} (passable : Passable name) {short : List Char}
    {first size attr : Nat} (used : (storedSlot short first size attr).mark ≠ 0) :
    ∀ slot ∈ newEntries name (lfnCount name) short first size attr, slot.mark ≠ 0 := by
  intro slot member
  rcases mem_append.mp member with part | last
  · exact (lfnParts_kinds passable.few slot part).1
  · rw [mem_singleton.mp last]
    exact used

/-- The new records have a place in one cluster of the directory, and only what
they show is new. -/
structure Inserted (v v' : Volume) (cs cs' : List Nat) (name : Path)
    (short : List Char) (first size attr : Nat) (cluster start : Nat)
    (before after : List Shown) : Prop where
  member : cluster ∈ cs'
  stored : ∃ pre post, v'.slots cluster = pre ++
    newEntries name (lfnCount name) short first size attr ++ post ∧ pre.length = start
  old : shown v cs = before ++ after
  new : shown v' cs' = before ++ newShown name
    (storedSlot short first size attr) cluster (start + lfnCount name) ++ after

section

variable {v v' : Volume} {dir : Nat} {cs : List Nat} {name : Path}
  {short : List Char} {first size attr : Nat}

theorem records_around (before after : List Nat) {pre run post : List Slot}
    (split : v.slots cluster = pre ++ run ++ post) : records v (before ++ cluster :: after) =
      (innerRecords v before ++ located cluster (viewed after.isEmpty pre) 0) ++
        located cluster (viewed after.isEmpty run) pre.length ++ (located cluster
        (viewed after.isEmpty post) (pre.length + run.length) ++ records v after) := by
  rw [records_split, split, viewed_append, viewed_append, located_append,
    located_append, length_append, viewed_length, viewed_length, zero_add, zero_add]
  simp only [append_assoc]

/-- The records in front of the run are in use. -/
theorem front_used {orderedBy : List Found} (orderly : Orderly v cs) {inner : List Nat}
    {pre : List Slot} (edge : EndsUsed pre) (split : records v cs = innerRecords v inner ++
      (located cluster (viewed isLast pre) 0 ++ orderedBy)) : ∀ found ∈ innerRecords v inner ++
    located cluster (viewed isLast pre) 0, found.slot.mark ≠ 0 := by
  intro found member
  rcases mem_append.mp member with before | here
  · exact innerRecords_marks v inner found before
  cases isLast with
  | false => exact patched_marks _ _ (mem_located here).1
  | true =>
    intro zero
    obtain ⟨front, back, cut⟩ := append_of_mem here
    have behind := orderly.ended (innerRecords v inner ++ front) found
      (back ++ orderedBy) (by rw [split, cut]; simp) zero
    have slots : pre = (front ++ found :: back).map Found.slot := by
      rw [← cut, located_slots]
      rfl
    -- the last record of these is in use and was never used
    obtain ⟨last, lastOf⟩ : ∃ last, (found :: back).getLast? = some last :=
      ⟨_, List.getLast?_eq_some_getLast (cons_ne_nil found back)⟩
    have used := edge last.slot (by
      rw [slots, List.getLast?_map, List.getLast?_append, lastOf]
      rfl)
    have never : last.slot.mark = 0 := by
      rcases mem_cons.mp (mem_of_getLast? lastOf) with rfl | later
      · exact zero
      · exact behind last (mem_append_left _ later)
    unfold Slot.vacant at used
    rw [never] at used
    cases used

variable {before : List Nat}

/-- A run of free slots inside a cluster takes the new records. -/
theorem inserted_within (dirAt : DirAt v dir cs) (orderly : Orderly v cs) (passable : Passable name)
    (used : (storedSlot short first size attr).mark ≠ 0) (entry : attr.testBit 3 = false)
    {after : List Nat} {start : Nat} (split : cs = before ++ cluster :: after)
    (run : findRun (newEntries name (lfnCount name) short first size attr).length
      (v.slots cluster) 0 0 0 = some start) (slots : v'.slots = update v.slots cluster
    (place (v.slots cluster) start (newEntries name (lfnCount name) short first size attr))) :
    lfnCount name + 1 ≤ slotsPerCluster v ∧
    ∃ old new, Inserted v v' cs cs name short first size attr cluster start old new := by
  have distinct := dirAt.chain.linked.nodup
  have count := newEntries_length name (lfnCount name) short first size attr
  have filled := dirAt.filled cluster (by rw [split]; simp)
  obtain ⟨pre, vacated, post, here, length, total, edge, vacant⟩ :=
    findRun_spec (by rw [count]; exact Nat.succ_pos _) run
  subst length
  have here' : v'.slots cluster = pre ++
      newEntries name (lfnCount name) short first size attr ++ post := by
    rw [slots, update_self, here, place_run total.symm]
  have others : ∀ other, other ≠ cluster → v'.slots other = v.slots other := by
    intro other new
    rw [slots, update_of_ne new]
  subst split
  obtain ⟨_, rest, apart⟩ := nodup_append.mp distinct
  have outside : cluster ∉ before := fun member => apart cluster member cluster mem_cons_self rfl
  have records' := records_around before after here'
  have records'' := records_around before after here
  have inner : innerRecords v' before = innerRecords v before := by
    refine innerRecords_same (fun other member => others other ?_)
    rintro rfl
    exact outside member
  have behind : records v' after = records v after := by
    refine records_same (fun other member => others other ?_)
    rintro rfl
    exact (nodup_cons.mp rest).1 member
  rw [inner, behind, viewed_used (newEntries_marks passable used), ← total] at records'
  have front := front_used orderly edge (records''.trans (by rw [append_assoc, append_assoc]))
  have vacant' : ∀ found ∈ located cluster (viewed after.isEmpty vacated) pre.length,
      Slot.vacant found.slot = true :=
    fun found member => viewed_vacant vacant _ (mem_located member).1
  have some' : located cluster (viewed after.isEmpty vacated) pre.length ≠ [] := by
    intro none
    have width := congrArg List.length (congrArg (List.map Found.slot) none)
    rw [located_slots, viewed_length, total, count] at width
    cases width
  obtain ⟨old, idle⟩ := listing_replaced orderly records'' some' vacant' front
  refine ⟨?_, _, _, by simp, ⟨pre, post, here', rfl⟩, old, ?_⟩
  · rw [here, length_append, length_append, total, count] at filled
    omega
  · unfold shown
    rw [records', append_assoc _ _ (_ ++ _), listing_append front,
      listing_new passable used entry _ _ _ idle, append_assoc]

/-- The records of a chain that has grown by a cluster. -/
theorem records_beyond {last added : Nat} {new : List Slot} (distinct : (before ++ [last]).Nodup)
    (apart : added ∉ before ++ [last]) (slots : v'.slots = update
    (update v.slots last (patched (v.slots last))) added new) : records v' (before ++
    [last] ++ [added]) = (records v (before ++ [last])).map patchFound ++ located added new 0 := by
  obtain ⟨_, _, fresh⟩ := nodup_append.mp distinct
  have outside : last ∉ before := fun member => fresh last member last mem_cons_self rfl
  have new' : last ≠ added := by
    rintro rfl
    exact apart (by simp)
  have inner : innerRecords v' before = innerRecords v before := by
    refine innerRecords_same (fun other member => ?_)
    have old : other ≠ added := by
      rintro rfl
      exact apart (mem_append_left _ member)
    have old' : other ≠ last := by
      rintro rfl
      exact outside member
    rw [slots, update_of_ne old, update_of_ne old']
  have here : v'.slots last = patched (v.slots last) := by
    rw [slots, update_of_ne new', update_self]
  have there : v'.slots added = new := by rw [slots, update_self]
  rw [append_assoc, singleton_append, records_split, records_split, inner,
    here, map_append, map_append, patchFound_used (innerRecords_marks v _)]
  unfold records viewed
  rw [there, map_nil, append_nil, append_assoc]
  refine congrArg (innerRecords v before ++ ·) (congrArg (· ++ _) ?_)
  rw [isEmpty_cons, isEmpty_nil, if_neg Bool.false_ne_true, if_pos rfl,
    ← located_patched, patched_used (patched_marks _)]

theorem place_zeros {count : Nat} {new : List Slot} (fits : new.length ≤ count) :
    place (List.replicate count Slot.zero) 0 new =
      new ++ List.replicate (count - new.length) Slot.zero := by
  have split : List.replicate count Slot.zero = [] ++ List.replicate new.length Slot.zero ++
        List.replicate (count - new.length) Slot.zero := by
    rw [nil_append, ← replicate_add]
    refine congrArg (List.replicate · Slot.zero) ?_
    omega
  rw [split]
  exact place_run (length_replicate).symm

/-- A new cluster takes the new records if one cluster can hold them. -/
theorem inserted_beyond (dirAt : DirAt v dir cs) (orderly : Orderly v cs) (passable : Passable name)
    (used : (storedSlot short first size attr).mark ≠ 0) (entry : attr.testBit 3 = false)
    {last added : Nat} (split : cs = before ++ [last]) (free : v.table added = fat32Free)
    (slots : v'.slots = update (update v.slots last (patched (v.slots last))) added
      (place (List.replicate (slotsPerCluster v) Slot.zero) 0
        (newEntries name (lfnCount name) short first size attr))) :
    (lfnCount name + 1 ≤ slotsPerCluster v → ∃ old new, Inserted v v' cs
        (cs ++ [added]) name short first size attr added 0 old new) ∧
      (slotsPerCluster v < lfnCount name + 1 → shown v' (cs ++ [added]) = shown v cs) := by
  have count := newEntries_length name (lfnCount name) short first size attr
  have apart : added ∉ cs := fun member => dirAt.chain.not_free member free
  subst split
  have records' := records_beyond dirAt.chain.linked.nodup apart slots
  obtain ⟨state, idle, extended⟩ := listing_extended orderly (located added (place
    (List.replicate (slotsPerCluster v) Slot.zero) 0
    (newEntries name (lfnCount name) short first size attr)) 0)
  rw [← records'] at extended
  constructor
  · intro fits
    rw [place_zeros (by rw [count]; exact fits)] at extended slots
    have zeros : ∀ found ∈ located added (List.replicate (slotsPerCluster v -
        (newEntries name (lfnCount name) short first size attr).length) Slot.zero)
        (0 + (newEntries name (lfnCount name) short first size attr).length),
        found.slot.mark = 0 := by
      intro found member
      rw [(mem_replicate.mp (mem_located member).1).2]
      rfl
    have stored : v'.slots added = [] ++ newEntries name (lfnCount name) short
        first size attr ++ List.replicate (slotsPerCluster v - (newEntries name
          (lfnCount name) short first size attr).length) Slot.zero := by
      rw [slots, update_self, nil_append]
    refine ⟨shown v (before ++ [last]), [], by simp, ⟨[], _, stored, rfl⟩, (append_nil _).symm, ?_⟩
    · refine extended.trans ?_
      rw [located_append, listing_new passable used entry _ _ _ idle,
        listing_zeros zeros, append_assoc]
  · intro wide
    have cut : place (List.replicate (slotsPerCluster v) Slot.zero) 0
        (newEntries name (lfnCount name) short first size attr) =
        (lfnParts name (lfnCount name)).take (slotsPerCluster v) := by
      unfold place
      rw [take_zero, nil_append, drop_eq_nil_of_le (by
        rw [length_replicate, count]; omega), append_nil,
        length_replicate, newEntries_eq,
        take_append_of_le_length (by rw [lfnParts_length]; omega)]
    rw [cut, ← append_nil (located _ _ _), listing_parts added [] _ (fun part
      member => lfnParts_kinds passable.few part (mem_of_mem_take member))]
      at extended
    refine extended.trans ?_
    exact append_nil _

end

/-! ### Names as they are stored -/

/-- The extension behind its dot. -/
def dotted : Option Path → Path
  | none => []
  | some ext => '.' :: ext

/-- A name is its stem, its dot and its extension. -/
theorem splitDot_name (name : Path) : name = (splitDot name).1 ++ dotted (splitDot name).2 := by
  unfold splitDot
  by_cases dot : '.' ∈ name
  · rw [if_pos dot]
    dsimp only [dotted]
    -- the reversed name up to the first dot, the dot, and the rest
    obtain ⟨rest, split⟩ : ∃ rest, name.reverse.dropWhile (· ≠ '.') = '.' :: rest := by
      cases dropped : name.reverse.dropWhile (· ≠ '.') with
      | nil =>
        have all := dropWhile_eq_nil_iff.mp dropped '.' (mem_reverse.mpr dot)
        exact absurd all (by decide)
      | cons c rest =>
        have stops := List.head?_dropWhile_not (· ≠ '.') name.reverse
        rw [dropped] at stops
        have here : c = '.' := by simpa using stops
        exact ⟨rest, by rw [here]⟩
    have whole := takeWhile_append_dropWhile (p := (· ≠ '.')) (l := name.reverse)
    rw [split] at whole
    generalize name.reverse.takeWhile (· ≠ '.') = tail at whole ⊢
    have forward : name = rest.reverse ++ '.' :: tail.reverse := by
      rw [← reverse_reverse name, ← whole]
      simp
    have cut : name.length - tail.reverse.length - 1 = rest.reverse.length := by
      rw [forward]
      simp only [length_append, length_cons]
      omega
    rw [cut]
    conv => lhs; rw [forward]
    conv => rhs; rw [forward]
    rw [take_left]
  · rw [if_neg dot]
    dsimp only [dotted]
    rw [append_nil]

theorem splitDot_ends (name : Path) : (splitDot name).2 = some [] ↔ name.getLast? = some '.' := by
  constructor
  · intro empty
    rw [splitDot_name name, empty]
    dsimp only [dotted]
    rw [List.getLast?_concat]
  intro last
  have dot := mem_of_getLast? last
  unfold splitDot
  rw [if_pos dot]
  rw [← List.head?_reverse] at last
  cases reversed : name.reverse with
  | nil =>
    rw [reversed] at last
    cases last
  | cons =>
    rw [reversed] at last
    cases last
    rfl

theorem upper_upper (c : Char) : upper (upper c) = upper c := by
  rw [← upper_lower (upper c), lower_upper, upper_lower]

theorem fold_upper (name : Path) : fold (name.map upper) = fold name := by
  unfold fold
  rw [List.map_map]
  exact map_congr_left (fun c _ => upper_upper c)

theorem takeWhile_padded {chars : List Char} {width : Nat} (fits : chars.length ≤ width)
    (solid : ' ' ∉ chars) : (padded width chars).takeWhile (· ≠ ' ') = chars := by
  unfold padded
  have all : ∀ c ∈ chars, decide (c ≠ ' ') = true :=
    fun c member => decide_eq_true (fun same => solid (same ▸ member))
  rw [take_of_length_le fits, takeWhile_append_of_pos all]
  cases width - chars.length with
  | zero => exact append_nil _
  | succ => rw [replicate_succ, takeWhile_cons_of_neg (by simp), append_nil]

theorem joined83_padded {base ext : List Char} (fits : base.length ≤ 8)
    (fits' : ext.length ≤ 3) (solid : ' ' ∉ base) (solid' : ' ' ∉ ext) :
    joined83 (padded 8 base ++ padded 3 ext) = base ++ if ext = [] then [] else '.' :: ext := by
  have front : (padded 8 base ++ padded 3 ext).take 8 = padded 8 base :=
    take_left' (padded_length 8 base)
  have back : ((padded 8 base ++ padded 3 ext).drop 8).take 3 = padded 3 ext := by
    have behind : (padded 8 base ++ padded 3 ext).drop 8 = padded 3 ext :=
      drop_left' (padded_length 8 base)
    rw [behind, take_of_length_le (by rw [padded_length])]
  unfold joined83
  dsimp only
  rw [front, back, takeWhile_padded fits solid, takeWhile_padded fits' solid']
  cases ext with
  | nil => rfl
  | cons c rest =>
    have first : (padded 3 (c :: rest)).head? = some c := rfl
    have kept : c ≠ ' ' := fun same => solid' (same ▸ mem_cons_self)
    rw [first, if_pos (fun same => kept (Option.some.inj same)), if_neg (cons_ne_nil c rest)]

/-- What it means that a name needs no long one. -/
structure Plain (name : Path) : Prop where
  some' : (splitDot name).1 ≠ []
  base : (splitDot name).1.length ≤ 8
  ext : ((splitDot name).2.getD []).length ≤ 3
  solid : ' ' ∉ name

theorem plain_of_needsLfn {name : Path} (plain : ¬needsLfn name = true) : Plain name := by
  have solid' : ' ' ∈ name → needsLfn name = true := by
    intro blank
    have kind : name.any needsLfnChar = true := any_eq_true.mpr ⟨' ', blank, by decide⟩
    unfold needsLfn
    cases splitDot name with
    | mk => simp [kind]
  have parts := plain
  unfold needsLfn at parts
  cases split : splitDot name with
  | mk =>
    rw [split] at parts
    simp only [Bool.or_eq_true, beq_iff_eq, decide_eq_true_eq, not_or,
      length_eq_zero_iff, not_lt] at parts
    obtain ⟨⟨⟨⟨_, some'⟩, short⟩, short'⟩, _⟩ := parts
    refine ⟨?_, ?_, ?_, fun blank => plain (solid' blank)⟩
    · rw [split]
      exact some'
    · rw [split]
      exact short
    · rw [split]
      exact short'

theorem encode83_shape {name : Path} {short : List Char} (kept : encode83Name name = some short) :
    short = padded 8 ((splitDot name).1.map upper) ++
      padded 3 (((splitDot name).2.getD []).map upper) := by
  unfold encode83Name at kept
  split at kept
  · cases kept
  · exact (Option.some.inj kept).symm

section

variable {name : Path} (plain : Plain name) (text : '\x00' ∉ name) {short : List Char}
  (kept : encode83Name name = some short) (first size attr : Nat)
include plain text kept first size attr

/-- A name stored without long-name records reads back unless it ends in a dot. -/
theorem plain_shown : nameEqCi name (decode83Name (storedSlot short first size attr)) = true ↔
      name.getLast? ≠ some '.' := by
  have capital : ∀ {chars : List Char} {c : Char}, (∀ d ∈ chars, d ∈ name) →
      (∀ d, upper d = c ↔ d = c) → c ∉ name → c ∉ chars.map upper := by
    intro chars c within same outside member
    obtain ⟨d, there, here⟩ := mem_map.mp member
    exact outside ((same d).mp here ▸ within d there)
  have among := fun c member => (@mem_splitDot name c).1 member
  have among' := fun c member => (@mem_splitDot name c).2 member
  have shape := encode83_shape kept
  have text' : '\x00' ∉ short := by
    intro member
    rw [shape] at member
    rcases mem_append.mp member with base | ext
    · rcases mem_padded base with there | blank
      · exact capital among (fun _ => upper_eq_mark (by decide)) text there
      · cases blank
    · rcases mem_padded ext with there | blank
      · exact capital among' (fun _ => upper_eq_mark (by decide)) text there
      · cases blank
  have whole : Char.ofNat (short.headD ' ').toNat :: short.drop 1 = short := by
    rw [Char.ofNat_toNat]
    cases short with
    | nil =>
      have width := congrArg List.length shape
      rw [length_append, padded_length, padded_length] at width
      cases width
    | cons => rfl
  unfold decode83Name storedSlot
  rw [whole, cString_of_text (joined83_text text'), nameEqCi_iff, fold_lower, shape,
    joined83_padded (by rw [length_map]; exact plain.base) (by rw [length_map]; exact plain.ext)
      (capital among (fun _ => upper_eq_mark (by decide)) plain.solid)
      (capital among' (fun _ => upper_eq_mark (by decide)) plain.solid), ne_eq, ← splitDot_ends]
  have front : fold name = fold (splitDot name).1 ++ fold (dotted (splitDot name).2) := by
    conv => lhs; rw [splitDot_name name]
    exact map_append
  have back : ∀ chars : Path, fold ((splitDot name).1.map upper ++ chars) =
      fold (splitDot name).1 ++ fold chars := by
    intro chars
    refine map_append.trans ?_
    exact congrArg (· ++ chars.map upper) (fold_upper _)
  rw [front, back, append_cancel_left_eq]
  cases (splitDot name).2 with
  | none =>
    simp [dotted]
  | some ext =>
    cases ext with
    | nil =>
      simp [dotted, fold]
    | cons =>
      simp [dotted, fold, upper_upper]

theorem plain_mark : (storedSlot short first size attr).mark ≠ 0 ∧
      ((storedSlot short first size attr).mark = deletedMark ↔ name.head? = some '\xe5') := by
  cases base : (splitDot name).1 with
  | nil => exact absurd base plain.some'
  | cons c =>
    have whole := splitDot_name name
    rw [base, cons_append] at whole
    have head : (storedSlot short first size attr).mark = (upper c).toNat := by
      rw [encode83_shape kept, base]
      rfl
    have member : c ∈ name := by
      rw [whole]
      exact mem_cons_self
    have first' : name.head? = some c := by
      rw [whole]
      rfl
    rw [head, first', some_inj, ← upper_eq_mark (by decide)]
    constructor
    · intro zero
      have ends : upper c = '\x00' := by rw [← Char.ofNat_toNat (upper c), zero]
      exact text ((upper_eq_mark (by decide)).mp ends ▸ member)
    · constructor
      · intro marked
        rw [← Char.ofNat_toNat (upper c), marked]
        rfl
      · intro marked
        rw [marked]
        rfl

end

/-- Where an entry of the name can be read back: a long name has at most twenty
parts, a plain one does not end in a dot, and neither gives the short name the
first byte of a deleted record. -/
def Readable (name : Path) : Prop :=
  if needsLfn name then
    name.length ≤ 260 ∧ (shortStem name).head? ≠ some '\xe5'
  else name.getLast? ≠ some '.' ∧ name.head? ≠ some '\xe5'

instance (name : Path) : Decidable (Readable name) := by
  unfold Readable
  infer_instance

theorem chosenNumber_range (entries : List Shown) (name : Path) :
    (chosenNumber entries name).getD 99 ∈ List.range' 1 99 := by
  cases chosen : chosenNumber entries name with
  | none => decide
  | some => exact mem_of_find?_eq_some chosen

/-- The stored entry answers to its name exactly when the name is readable. -/
theorem stored_readable {name : Path} (passable : Passable name) {entries : List Shown}
    {short : List Char} (kept : stored83 entries name = some short) (first size attr : Nat) :
    (storedSlot short first size attr).mark ≠ 0 ∧
      ((storedSlot short first size attr).mark ≠ deletedMark ∧ nameEqCi name
        (shownName name (storedSlot short first size attr)) = true ↔ Readable name) := by
  unfold stored83 at kept
  unfold shownName Readable
  by_cases long : needsLfn name = true
  · rw [if_pos long] at kept
    obtain ⟨used, deleted⟩ := numbered83_mark passable.text (chosenNumber_range entries name)
    unfold chosen83 at kept
    have mark : (storedSlot short first size attr).mark =
        ((numbered83 name ((chosenNumber entries name).getD 99)).headD ' ').toNat := by
      rw [storedSlot_mark, ← Option.some.inj kept]
    rw [if_pos long, if_pos long, mark]
    refine ⟨used, ?_⟩
    have cut : nameEqCi name (name.take 260) = true ↔ name.length ≤ 260 := by
      rw [nameEqCi_iff]
      constructor
      · intro same
        have width := congrArg List.length same
        unfold fold at width
        rw [length_map, length_map, length_take] at width
        omega
      · intro fits
        rw [take_of_length_le fits]
    rw [cut]
    exact and_comm.trans (and_congr_right fun _ => not_congr deleted)
  · rw [if_neg long] at kept
    have plain := plain_of_needsLfn long
    obtain ⟨used, deleted⟩ := plain_mark plain passable.text kept first size attr
    rw [if_neg long, if_neg long, plain_shown plain passable.text kept]
    exact ⟨used, and_comm.trans (and_congr_right fun _ => not_congr deleted)⟩

/-! ### Lookups after an addition -/

variable {a b : Path}

theorem nameEqCi_trans {c : Path} (first : nameEqCi a b = true)
    (second : nameEqCi b c = true) : nameEqCi a c = true :=
  nameEqCi_iff.mpr ((nameEqCi_iff.mp first).trans (nameEqCi_iff.mp second))

theorem nameEqCi_symm (same : nameEqCi a b = true) : nameEqCi b a = true :=
  nameEqCi_iff.mpr (nameEqCi_iff.mp same).symm

theorem firstNamed_same (same : nameEqCi a b = true)
    (entries : List Shown) : firstNamed a entries = firstNamed b entries := by
  have test : (fun entry : Shown => nameEqCi a entry.name) =
      fun entry => nameEqCi b entry.name := by
    funext entry
    rw [Bool.eq_iff_iff]
    exact ⟨nameEqCi_trans (nameEqCi_symm same), nameEqCi_trans same⟩
  unfold firstNamed
  rw [test]

theorem firstNamed_append {name : Path} {before : List Shown} (none : firstNamed name before = none)
    (after : List Shown) : firstNamed name (before ++ after) = firstNamed name after := by
  unfold firstNamed at *
  rw [List.find?_append, map_eq_none_iff.mp none]
  rfl

/-- A new entry of another name hides none. -/
theorem firstNamed_insert {name : Path} {entry : Shown}
    (other : nameEqCi name entry.name = false) (before after : List Shown) :
    firstNamed name (before ++ [entry] ++ after) = firstNamed name (before ++ after) := by
  have skip : firstNamed name [entry] = none :=
    firstNamed_none.mpr (fun found member => by
      rw [mem_singleton.mp member]
      exact other)
  cases found : firstNamed name before with
  | none =>
    rw [append_assoc, firstNamed_append found, firstNamed_append found, firstNamed_append skip]
  | some =>
    unfold firstNamed at found ⊢
    obtain ⟨_, here, _⟩ := map_eq_some_iff.mp found
    simp only [List.find?_append, here, some_or]

theorem firstNamed_here {name : Path} {entry : Shown} {before : List Shown}
    (none : firstNamed name before = none) (here : nameEqCi name entry.name = true)
    (after : List Shown) : firstNamed name (before ++ [entry] ++ after) = some entry.found := by
  rw [append_assoc, firstNamed_append none]
  unfold firstNamed
  rw [singleton_append, List.find?_cons, here]
  rfl

/-- The entry is new, found by its name in any case, and in the chain of the
directory; what was found before is found as before. -/
structure AddsEntry (v v' : Volume) (dir : Nat) (name : Path)
    (first size attr : Nat) (entry : Found) : Prop where
  fields : entry.slot.cluster = first ∧ entry.slot.size = size ∧ entry.slot.attr = attr
  resolves : ∀ other, nameEqCi other name = true → (dirFindEntry v' dir other).1 = some entry
  kept : ∀ other found, (dirFindEntry v dir other).1 = some found →
    (dirFindEntry v' dir other).1 = some found
  inside : ∃ cs, DirAt v' dir cs ∧ entry.cluster ∈ cs ∧ lfnCount name ≤ entry.index ∧
    entry.index < slotsPerCluster v' ∧ ∀ cluster, cluster ∉ cs → v'.slots cluster = v.slots cluster

/-- The records of the name fit into a cluster, and its entry can be read back. -/
def Storable (v : Volume) (name : Path) : Prop :=
  lfnCount name + 1 ≤ slotsPerCluster v ∧ Readable name

instance (v : Volume) (name : Path) : Decidable (Storable v name) := by
  unfold Storable
  infer_instance

section

variable {v : Volume} {dir : Nat} {cs : List Nat} (dirAt : DirAt v dir cs)
  (reliable : DirReliable v) (orderly : Orderly v cs) {name : Path} (passable : Passable name)
include dirAt reliable orderly passable

/-- What an addition that succeeds leaves behind. -/
theorem dirAddEntry_inserted {first size attr : Nat} (entry : attr.testBit 3 = false)
    (ok : (dirAddEntry v dir name first size attr).1 = true) : ∃ short cs', stored83
    (shown v cs) name = some short ∧ DirAt (dirAddEntry v dir name first size attr).2 dir cs' ∧
      (∀ cluster, cluster ∉ cs' → (dirAddEntry v dir name first size attr).2.slots cluster =
          v.slots cluster) ∧ (lfnCount name + 1 ≤ slotsPerCluster v → ∃ cluster start before after,
        Inserted v (dirAddEntry v dir name first size attr).2 cs cs' name short
          first size attr cluster start before after) ∧ (slotsPerCluster v < lfnCount name + 1 →
        shown (dirAddEntry v dir name first size attr).2 cs' = shown v cs) := by
  cases kept : stored83 (shown v cs) name with
  | none =>
    rw [dirAddEntry_refused kept] at ok
    cases ok
  | some short =>
    obtain ⟨used, _⟩ := stored_readable passable kept first size attr
    obtain ⟨shape, coherent, cs', addition⟩ := dirAddEntry_addition dirAt reliable
      name first size attr kept
    have some' : 0 < (newEntries name (lfnCount name) short first size attr).length := by
      rw [newEntries_length]
      exact Nat.succ_pos _
    have dirAt' := addition.dirAt dirAt shape coherent some'
    refine ⟨short, cs', rfl, dirAt', ?_⟩
    cases result : dirAddEntry v dir name first size attr with
    | mk =>
      rw [result] at addition ok
      cases addition with
      | within _ split run _ slots =>
        obtain ⟨fits, old, new, inserted⟩ := inserted_within dirAt orderly
          passable used entry split run slots
        refine ⟨?_, fun _ => ⟨_, _, old, new, inserted⟩, ?_⟩
        · intro other outside
          rw [slots, update_of_ne]
          rintro rfl
          exact outside (by rw [split]; simp)
        · intro wide
          exact absurd fits (by omega)
      | beyond _ split _ _ free _ slots =>
        obtain ⟨fits, wide⟩ := inserted_beyond dirAt orderly passable used entry split free slots
        refine ⟨?_, fun small => ⟨_, _, fits small⟩, wide⟩
        intro other outside
        rw [slots, update_of_ne, update_of_ne]
        · rintro rfl
          exact outside (by rw [split]; simp)
        · rintro rfl
          exact outside (by simp)
      | full => cases ok

/-- A successful addition makes an entry that is found by its name, whatever its
case, and hides none, exactly where the name can be stored. -/
theorem dir_add_find (unknown : (dirFindEntry v dir name).1 = none) {first size attr : Nat}
    (entry : attr.testBit 3 = false) (ok : (dirAddEntry v dir name first size attr).1 = true) :
    (∃ found, AddsEntry v (dirAddEntry v dir name first size attr).2 dir name first
      size attr found) ↔ Storable v name := by
  obtain ⟨short, cs', kept, dirAt', outside, fits, wide⟩ := dirAddEntry_inserted
    dirAt reliable orderly passable entry ok
  obtain ⟨_, readable⟩ := stored_readable passable kept first size attr
  have lookup := fun other => (dirFindEntry_shown dirAt other).1
  have lookup' := fun other => (dirFindEntry_shown dirAt' other).1
  have before := lookup name
  rw [unknown] at before
  have reflexive : nameEqCi name name = true := nameEqCi_iff.mpr rfl
  constructor
  · rintro ⟨found, adds⟩
    have here := adds.resolves name reflexive
    rw [lookup'] at here
    by_cases room : lfnCount name + 1 ≤ slotsPerCluster v
    · refine ⟨room, readable.mp ?_⟩
      obtain ⟨_, _, old, new, inserted⟩ := fits room
      rw [inserted.new] at here
      rw [inserted.old] at before
      unfold newShown at here
      split at here
      · rw [append_nil, ← before] at here
        cases here
      next live =>
        refine ⟨live, ?_⟩
        cases hit : nameEqCi name (shownName name (storedSlot short first size attr)) with
        | true => rfl
        | false =>
          rw [firstNamed_insert hit, ← before] at here
          cases here
    · rw [wide (by omega), ← before] at here
      cases here
  · rintro ⟨room, good⟩
    obtain ⟨live, hit⟩ := readable.mpr good
    obtain ⟨cluster, start, old, new, inserted⟩ := fits room
    have shown' := inserted.new
    have unseen : firstNamed name old = none := by
      rw [inserted.old] at before
      refine firstNamed_none.mpr (fun other member => ?_)
      exact firstNamed_none.mp before.symm other (mem_append_left _ member)
    unfold newShown at shown'
    rw [if_neg live] at shown'
    obtain ⟨pre, post, stored, length⟩ := inserted.stored
    refine ⟨⟨storedSlot short first size attr, cluster, start + lfnCount name⟩,
      ⟨rfl, rfl, rfl⟩, ?_, ?_, ?_⟩
    · intro other same
      rw [lookup', firstNamed_same same, shown']
      exact firstNamed_here unseen hit new
    · intro other found there
      rw [lookup, inserted.old] at there
      rw [lookup', shown']
      cases hides : nameEqCi other (shownName name (storedSlot short first size attr)) with
      | true =>
        -- what the new entry hides would have been found by its name
        have same := nameEqCi_trans hides (nameEqCi_symm hit)
        rw [firstNamed_same same, ← inserted.old, ← before] at there
        cases there
      | false =>
        rw [firstNamed_insert hides]
        exact there
    · refine ⟨cs', dirAt', inserted.member, Nat.le_add_left .., ?_, outside⟩
      rw [← dirAt'.filled cluster inserted.member, stored]
      simp only [length_append, newEntries_length]
      omega

end

/-! ### Two directories -/

theorem stateAfter_idle : ∀ {rest : List Found} {state : LfnState},
    (∀ found ∈ rest, found.slot = Slot.zero) → state.hasLfn = false →
    (stateAfter rest state).hasLfn = false
  | [], _, _, idle => idle
  | found :: rest, state, never, _ => by
    have other : ¬(found.slot.mark ≠ deletedMark ∧ found.slot.attr = attrLfn) := by
      rw [never found mem_cons_self]
      decide
    rw [stateAfter, if_neg other]
    exact stateAfter_idle (fun later member => never later (mem_cons_of_mem _ member)) rfl

theorem stateAfter_append : ∀ (before after : List Found) (state : LfnState),
    stateAfter (before ++ after) state = stateAfter after (stateAfter before state)
  | [], _, _ => rfl
  | found :: before, after, state => by
    rw [cons_append, stateAfter, stateAfter, stateAfter_append before after,
      stateAfter_append before after]
    split <;> rfl

/-- Used records in front of zero ones make an orderly directory. -/
theorem orderly_of_split {v : Volume} {cs : List Nat} {used zeros : List Found}
    (split : records v cs = used ++ zeros) (live : ∀ found ∈ used, Slot.vacant found.slot = false)
    (never : ∀ found ∈ zeros, found.slot = Slot.zero)
    (idle : (stateAfter used LfnState.start).hasLfn = false) : Orderly v cs := by
  have behind : ∀ before found rest, records v cs = before ++ found :: rest →
      Slot.vacant found.slot = true →
      ∃ more, before = used ++ more ∧ zeros = more ++ found :: rest := by
    intro before found rest here vacant
    rw [split] at here
    rcases append_eq_append_iff.mp here with ⟨more, whole, cut⟩ | ⟨more, whole, cut⟩
    · exact ⟨more, whole, cut⟩
    cases more with
    | nil =>
      rw [append_nil] at whole
      exact ⟨[], by rw [whole, append_nil], cut.symm⟩
    | cons =>
      cases cut
      have busy := live found (by rw [whole]; simp)
      rw [vacant] at busy
      cases busy
  refine ⟨?_, ?_, ?_⟩
  · intro before found rest here zero later member
    obtain ⟨_, _, cut⟩ := behind before found rest here (by
      unfold Slot.vacant
      rw [zero]
      rfl)
    rw [never later (by rw [cut]; simp [member])]
    rfl
  · intro before found rest here vacant
    obtain ⟨_, whole, cut⟩ := behind before found rest here vacant
    rw [whole, stateAfter_append]
    exact stateAfter_idle (fun later member => never later (by
      rw [cut]
      exact mem_append_left _ member)) idle
  · rw [split, stateAfter_append]
    exact stateAfter_idle never idle

theorem rootWith_orderly (live : ∀ slot ∈ slots, Slot.vacant slot = false)
    (idle : (stateAfter (located 2 slots 0) LfnState.start).hasLfn = false) :
    Orderly (rootWith slots) [2] := by
  have split : records (rootWith slots) [2] = located 2 slots 0 ++
      located 2 (List.replicate (16 - slots.length) Slot.zero) (0 + slots.length) := by
    rw [← located_append]
    rfl
  refine orderly_of_split split (fun found member => live _ (mem_located member).1)
    (fun found member => ?_) idle
  exact (mem_replicate.mp (mem_located member).1).2

/-- A second file in the directory of `Desktop files`. -/
theorem dir_add_find_notes : ∃ found, AddsEntry desktopFiles
    (dirAddEntry desktopFiles 2 "Notes.txt".toList 0 0 attrArchive).2 2
    "Notes.txt".toList 0 0 attrArchive found :=
  (dir_add_find (rootWith_dirAt (by decide)) (fun _ => rfl)
    (rootWith_orderly (by decide) (by decide +kernel)) ⟨by decide, by decide, by decide⟩
    (by decide +kernel) (by decide) (by decide +kernel)).mpr (by decide +kernel)

/-- A plain name that ends in a dot is not found again. -/
theorem dir_add_find_fails :
    DirAt (rootWith []) 2 [2] ∧ DirReliable (rootWith []) ∧
      Orderly (rootWith []) [2] ∧ Passable "FOO.".toList ∧
      (dirFindEntry (rootWith []) 2 "FOO.".toList).1 = none ∧
      (dirAddEntry (rootWith []) 2 "FOO.".toList 0 0 attrArchive).1 = true ∧
      ¬∃ found, AddsEntry (rootWith [])
        (dirAddEntry (rootWith []) 2 "FOO.".toList 0 0 attrArchive).2 2
        "FOO.".toList 0 0 attrArchive found := by
  refine ⟨rootWith_dirAt (by decide), fun _ => rfl,
    rootWith_orderly (by decide) (by decide), ⟨by decide, by decide, by decide⟩,
    by decide +kernel, by decide +kernel, ?_⟩
  rintro ⟨found, adds⟩
  have here := adds.resolves "FOO.".toList (by decide)
  have missing : (dirFindEntry (dirAddEntry (rootWith []) 2 "FOO.".toList 0 0 attrArchive).2 2
      "FOO.".toList).1 = none := by decide +kernel
  rw [missing] at here
  cases here

end MainDob.Fs.Fat
