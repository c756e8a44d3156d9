/-
Purpose: What a directory shows after `dir_remove_entry`. The entry and the parts of its long name
  in the same cluster are marked deleted; where the long name does not begin in an earlier
  cluster, the directory stays well formed and shows the other entries as before.
Main exports: Straddles, Removed, dirRemoveEntry_removed
-/
import MainDob.Proofs.DirInserts

namespace MainDob.Fs.Fat

open List

/-! ### Records up to a place -/

/-- A record that is marked deleted. -/
def dropped (slot : Slot) : Slot := { slot with mark := deletedMark }

theorem dropLfn_eq : ∀ slots : List Slot, dropLfn slots =
    (slots.takeWhile (·.attr == attrLfn)).map dropped ++ slots.dropWhile (·.attr == attrLfn)
  | [] => rfl
  | slot :: rest => by
    unfold dropLfn
    rw [takeWhile_cons, dropWhile_cons]
    by_cases part : slot.attr = attrLfn
    · have holds : (slot.attr == attrLfn) = true := beq_iff_eq.mpr part
      rw [if_pos part, dropLfn_eq rest, if_pos holds, if_pos holds]
      rfl
    · have fails : ¬(slot.attr == attrLfn) = true := fun holds => part (beq_iff_eq.mp holds)
      rw [if_neg part, if_neg fails, if_neg fails]
      rfl

theorem split_parts (slots : List Slot) : ∃ pre run, slots = pre ++ run ∧
    (∀ part ∈ run, part.attr = attrLfn) ∧ (∀ last, pre.getLast? = some last → last.attr ≠ attrLfn) ∧
    (dropLfn slots.reverse).reverse = pre ++ run.map dropped := by
  refine ⟨(slots.reverse.dropWhile (·.attr == attrLfn)).reverse,
    (slots.reverse.takeWhile (·.attr == attrLfn)).reverse, ?_, ?_, ?_, ?_⟩
  · rw [← reverse_append, takeWhile_append_dropWhile, reverse_reverse]
  · intro part member
    have holds := mem_takeWhile_imp (mem_reverse.mp member)
    exact beq_iff_eq.mp holds
  · intro last here part
    rw [List.getLast?_reverse] at here
    have stops := List.head?_dropWhile_not (fun slot : Slot => slot.attr == attrLfn) slots.reverse
    rw [here] at stops
    dsimp only at stops
    rw [part] at stops
    exact absurd stops (by decide)
  · rw [dropLfn_eq, reverse_append, map_reverse]

/-- A cluster around the entry that is removed, and the parts of its name. -/
structure Around (slots pre run : List Slot) (slot : Slot) (post : List Slot) :
    Prop where
  split : slots = pre ++ (run ++ [slot]) ++ post
  parts : ∀ part ∈ run, part.attr = attrLfn
  edge : ∀ last, pre.getLast? = some last → last.attr ≠ attrLfn
  removed : removeAt slots (pre.length + run.length) = pre ++ (run ++ [slot]).map dropped ++ post

theorem around_of_split {slots before after : List Slot} {slot : Slot} (split : slots = before ++
    slot :: after) : ∃ pre run, before = pre ++ run ∧ Around slots pre run slot after := by
  obtain ⟨pre, run, whole, parts, edge, dropped'⟩ := split_parts before
  refine ⟨pre, run, whole, ?_, parts, edge, ?_⟩
  · rw [split, whole]
    simp
  have length : pre.length + run.length = before.length := by rw [whole, length_append]
  unfold removeAt
  dsimp only
  have modified : slots.modify before.length (fun slot =>
      { slot with mark := deletedMark }) = before ++ dropped slot :: after := by
    rw [split, modify_eq_take_cons_drop (by simp)]
    simp [dropped]
  rw [length, modified, take_left, drop_left, dropped']
  simp

/-! ### Records of a directory up to an entry -/

theorem located_split : ∀ {slots : List Slot} {cluster index : Nat}
    {before after : List Found} {found : Found},
    located cluster slots index = before ++ found :: after →
    ∃ pre post, slots = pre ++ found.slot :: post ∧ before = located cluster pre index ∧
      after = located cluster post (index + pre.length + 1) ∧
      found.cluster = cluster ∧ found.index = index + pre.length
  | [], _, _, before, _, _, split => by
    cases before with
    | nil | cons => cases split
  | slot :: rest, cluster, index, before, after, found, split => by
    cases before with
    | nil =>
      cases split
      exact ⟨[], rest, rfl, rfl, rfl, rfl, rfl⟩
    | cons =>
      obtain ⟨rfl, later⟩ := List.cons.inj split
      obtain ⟨pre, post, rfl, rfl, rfl, here, place⟩ := located_split later
      have shift : index + 1 + pre.length = index + (pre.length + 1) := by omega
      refine ⟨slot :: pre, post, rfl, rfl, ?_, here, ?_⟩
      · rw [length_cons, shift]
      · rw [length_cons, place, shift]

theorem records_split_at {v : Volume} : ∀ {cs : List Nat}
    {before after : List Found} {found : Found},
    records v cs = before ++ found :: after →
    ∃ front back pre post, cs = front ++
      found.cluster :: back ∧ viewed back.isEmpty (v.slots found.cluster) = pre ++ found.slot ::
      post ∧ pre.length = found.index ∧ before = innerRecords v front ++ located found.cluster pre 0
  | [], before, _, _, split => by
    cases before with
    | nil | cons => cases split
  | cluster :: rest, before, after, found, split => by
    have head := records_split v cluster rest []
    rw [nil_append] at head
    rw [head] at split
    change located cluster _ 0 ++ records v rest = _ at split
    rcases append_eq_append_iff.mp split with
      ⟨more, whole, cut⟩ | ⟨more, whole, cut⟩
    · -- the record is in a later cluster
      obtain ⟨front, back, pre, post, chain, view, place, before'⟩ := records_split_at cut
      refine ⟨cluster :: front, back, pre, post, by rw [chain]; rfl, view, place, ?_⟩
      have last : rest.isEmpty = false := by
        rw [chain]
        cases front <;> rfl
      rw [whole, before', last]
      unfold innerRecords viewed
      rw [flatMap_cons, if_neg Bool.false_ne_true, append_assoc]
    · cases more with
      | nil =>
        rw [append_nil] at whole
        obtain ⟨front, back, pre, post, chain, view, place, before'⟩ :=
          @records_split_at v _ [] _ _ cut.symm
        refine ⟨cluster :: front, back, pre, post, by rw [chain]; rfl, view, place, ?_⟩
        have last : rest.isEmpty = false := by
          rw [chain]
          cases front <;> rfl
        rw [← whole, last]
        unfold innerRecords viewed at *
        rw [flatMap_cons, if_neg Bool.false_ne_true, append_assoc, ← before', append_nil]
      | cons =>
        obtain ⟨rfl, _⟩ := List.cons.inj cut
        obtain ⟨pre, post, view, before', _, here, place⟩ := located_split whole
        rw [zero_add] at place
        rw [here]
        exact ⟨[], rest, pre, post, rfl, view, place.symm, before'⟩

theorem viewed_split {isLast : Bool} {slots pre post : List Slot} {slot : Slot}
    (split : viewed isLast slots = pre ++ slot :: post)
    (live : slot.mark ≠ deletedMark) : ∃ pre' post', slots = pre' ++
    slot :: post' ∧ viewed isLast pre' = pre ∧ viewed isLast post' = post := by
  cases isLast with
  | true => exact ⟨pre, post, split, rfl, rfl⟩
  | false =>
    obtain ⟨pre', _, whole, before, behind⟩ := map_eq_append_iff.mp split
    obtain ⟨old, post', cut, here, after⟩ := map_eq_cons_iff.mp behind
    have same : old = slot := by
      rw [← here]
      split
      · next zero =>
          rw [if_pos zero] at here
          rw [← here] at live
          exact absurd rfl live
      · rfl
    exact ⟨pre', post', by rw [whole, cut, same], before, after⟩

/-! ### Listings up to an entry -/

theorem entry_iff {slot : Slot} : Slot.entry slot = true ↔ slot.mark ≠ 0 ∧
    slot.mark ≠ deletedMark ∧ slot.attr ≠ attrLfn ∧ ¬Slot.volumeId slot = true := by
  unfold Slot.entry Slot.vacant
  simp only [Bool.and_eq_true, Bool.not_eq_true', Bool.or_eq_false_iff,
    beq_eq_false_iff_ne, bne_iff_ne, and_assoc, Bool.not_eq_true]

theorem listing_entry {found : Found} (entry : Slot.entry found.slot = true)
    (rest : List Found) (state : LfnState) : listing (found :: rest) state =
      ⟨found, state.hasLfn, state.nameOf found.slot⟩ :: listing rest state.idle := by
  obtain ⟨used, kept, part, label⟩ := entry_iff.mp entry
  rw [listing_used used kept, if_neg part, if_neg label]

theorem listing_member {entries : List Found} {state : LfnState} {x : Shown}
    (member : x ∈ listing entries state) : ∃ before after, entries = before ++ x.found :: after ∧
      Slot.entry x.found.slot = true ∧ (∀ found ∈ before, found.slot.mark ≠ 0) ∧ x = ⟨x.found,
      (stateAfter before state).hasLfn, (stateAfter before state).nameOf x.found.slot⟩ := by
  induction entries generalizing state with
  | nil => cases member
  | cons found rest ih =>
    by_cases zero : found.slot.mark = 0
    · rw [listing_end zero] at member
      cases member
    -- the record is passed, or it is the entry
    have later : ∀ next, stateAfter [found] state = next →
        x ∈ listing rest next → ∃ before after, found :: rest = before ++ x.found :: after ∧
          Slot.entry x.found.slot = true ∧ (∀ found ∈ before, found.slot.mark ≠ 0) ∧ x = ⟨x.found,
          (stateAfter before state).hasLfn, (stateAfter before state).nameOf x.found.slot⟩ := by
      rintro next rfl member
      obtain ⟨before, after, split, entry, used, same⟩ := ih member
      refine ⟨found :: before, after, by rw [split]; rfl, entry, ?_, ?_⟩
      · intro other there
        rcases mem_cons.mp there with rfl | there
        · exact zero
        · exact used other there
      · rw [← singleton_append, stateAfter_append]
        exact same
    by_cases deleted : found.slot.mark = deletedMark
    · rw [listing_deleted deleted] at member
      refine later _ ?_ member
      rw [stateAfter, if_neg (fun both => both.1 deleted)]
      rfl
    rw [listing_used zero deleted] at member
    by_cases part : found.slot.attr = attrLfn
    · rw [if_pos part] at member
      refine later _ ?_ member
      rw [stateAfter, if_pos ⟨deleted, part⟩]
      rfl
    have idle : stateAfter [found] state = state.idle := by
      rw [stateAfter, if_neg (fun both => part both.2)]
      rfl
    rw [if_neg part] at member
    by_cases label : Slot.volumeId found.slot = true
    · rw [if_pos label] at member
      exact later _ idle member
    rw [if_neg label] at member
    rcases mem_cons.mp member with rfl | member
    · exact ⟨[], rest, rfl, entry_iff.mpr ⟨zero, deleted, part, label⟩,
        fun _ there => absurd there not_mem_nil, rfl⟩
    · exact later _ idle member

theorem listing_lfn : ∀ {run : List Found}, (∀ found ∈ run,
    found.slot.attr = attrLfn) → ∀ state : LfnState, listing run state = []
  | [], _, _ => rfl
  | found :: run, parts, state => by
    have later := listing_lfn (fun other member => parts other (mem_cons_of_mem _ member))
    by_cases zero : found.slot.mark = 0
    · exact listing_end zero
    by_cases deleted : found.slot.mark = deletedMark
    · rw [listing_deleted deleted]
      exact later _
    rw [listing_used zero deleted, if_pos (parts found mem_cons_self)]
    exact later _

/-! ### Well-formed directories in parts -/

/-- No long name is being put together at a vacant record. -/
def Whole (entries : List Found) (state : LfnState) : Prop :=
  ∀ before found rest, entries = before ++ found :: rest →
    Slot.vacant found.slot = true → (stateAfter before state).hasLfn = false

theorem whole_append {first second : List Found} {state : LfnState} :
    Whole (first ++ second) state ↔ Whole first state ∧ Whole second (stateAfter first state) := by
  constructor
  · intro whole
    refine ⟨?_, ?_⟩
    · intro before found rest split vacant
      exact whole before found (rest ++ second) (by rw [split]; simp) vacant
    · intro before found rest split vacant
      rw [← stateAfter_append]
      exact whole (first ++ before) found rest (by rw [split]; simp) vacant
  · rintro ⟨front, back⟩ before found rest split vacant
    rcases append_eq_append_iff.mp split.symm with
      ⟨more, whole, cut⟩ | ⟨more, whole, cut⟩
    · cases more with
      | nil =>
        rw [append_nil] at whole
        rw [← whole]
        exact back [] found rest cut.symm vacant
      | cons _ more =>
        obtain ⟨rfl, _⟩ := List.cons.inj cut
        exact front before found more whole vacant
    · rw [whole, stateAfter_append]
      exact back more found rest cut vacant

/-- Behind a record that was never used, none was. -/
def Ended (entries : List Found) : Prop :=
  entries.Pairwise fun found later => found.slot.mark = 0 → later.slot.mark = 0

theorem ended_iff {entries : List Found} : Ended entries ↔ ∀ before found rest, entries = before ++
    found :: rest → found.slot.mark = 0 → ∀ later ∈ rest, later.slot.mark = 0 := by
  constructor
  · rintro ends before found rest rfl zero later member
    have behind := (pairwise_append.mp ends).2.1
    exact (pairwise_cons.mp behind).1 later member zero
  intro ends
  induction entries with
  | nil => exact List.Pairwise.nil
  | cons found rest ih =>
    refine List.Pairwise.cons (fun later member zero =>
      ends [] found rest rfl zero later member) (ih ?_)
    intro before other more split zero
    exact ends (found :: before) other more (by rw [split]; rfl) zero

/-- States that differ at most in a buffer that is not used. -/
def Alike (state other : LfnState) : Prop :=
  state = other ∨ state.hasLfn = false ∧ other.hasLfn = false

theorem Alike.hasLfn {state other : LfnState} (alike : Alike state other) :
    state.hasLfn = other.hasLfn := by
  rcases alike with rfl | ⟨idle, idle'⟩
  · rfl
  · rw [idle, idle']

theorem Alike.after : ∀ {state other : LfnState} (rest : List Found),
    Alike state other → Alike (stateAfter rest state) (stateAfter rest other)
  | _, _, [], alike => alike
  | state, other, found :: rest, alike => by
    rcases alike with rfl | ⟨idle, idle'⟩
    · exact Or.inl rfl
    rw [stateAfter, stateAfter]
    split
    · refine Alike.after rest ?_
      unfold LfnState.meet
      dsimp only
      by_cases first : found.slot.mark.testBit 6 = true
      · rw [if_pos first, if_pos first]
        exact Or.inl rfl
      · rw [if_neg first, if_neg first, idle, idle', Bool.false_and,
          Bool.false_and, if_neg Bool.false_ne_true, if_neg Bool.false_ne_true]
        exact Or.inr ⟨idle, idle'⟩
    · exact Alike.after rest (Or.inr ⟨rfl, rfl⟩)

theorem Whole.alike {entries : List Found} {state other : LfnState} (whole : Whole entries state)
    (alike : Alike state other) : Whole entries other := by
  intro before found rest split vacant
  rw [← (alike.after before).hasLfn]
  exact whole before found rest split vacant

theorem stateAfter_deleted : ∀ {run : List Found}, (∀ found ∈ run,
    found.slot.mark = deletedMark) → ∀ {state : LfnState}, state.hasLfn = false →
    (stateAfter run state).hasLfn = false
  | [], _, _, idle => idle
  | found :: run, deleted, state, _ => by
    have here := deleted found mem_cons_self
    rw [stateAfter, if_neg (fun both => both.1 here)]
    exact stateAfter_deleted (fun other member => deleted other (mem_cons_of_mem _ member)) rfl

theorem whole_deleted {run : List Found} (deleted : ∀ found ∈ run, found.slot.mark = deletedMark)
    {state : LfnState} (idle : state.hasLfn = false) : Whole run state := by
  intro before found rest split _
  refine stateAfter_deleted (fun other member => deleted other ?_) idle
  rw [split]
  exact mem_append_left _ member

theorem stateAfter_plain (before : List Found) {found : Found} (plain : found.slot.attr ≠ attrLfn)
    (state : LfnState) : (stateAfter (before ++ [found]) state).hasLfn = false := by
  rw [stateAfter_append, stateAfter, if_neg (fun both => plain both.2)]
  rfl

/-! ### The records without an entry -/

/-- Of the records, an entry and the parts of its name are marked deleted. -/
structure Cleared (entries entries' before run gone after : List Found)
    (found : Found) : Prop where
  old : entries = before ++ (run ++ found :: after)
  new : entries' = before ++ (gone ++ after)
  entry : Slot.entry found.slot = true
  parts : ∀ part ∈ run, part.slot.attr = attrLfn
  used : ∀ other ∈ before ++ run, other.slot.mark ≠ 0
  deleted : ∀ other ∈ gone, other.slot.mark = deletedMark
  idle : (stateAfter before LfnState.start).hasLfn = false

namespace Cleared

variable {entries entries' before run gone after : List Found} {found : Found}

section

variable (cleared : Cleared entries entries' before run gone after found)
include cleared

theorem front : ∀ other ∈ before, other.slot.mark ≠ 0 :=
  fun other member => cleared.used other (mem_append_left _ member)

theorem behind : (stateAfter gone (stateAfter before LfnState.start)).hasLfn = false :=
  stateAfter_deleted cleared.deleted cleared.idle

theorem behind_entry :
    (stateAfter [found] (stateAfter run (stateAfter before LfnState.start))).hasLfn = false :=
  stateAfter_plain [] (entry_iff.mp cleared.entry).2.2.1 _

theorem alike : Alike (stateAfter [found] (stateAfter run (stateAfter before LfnState.start)))
      (stateAfter gone (stateAfter before LfnState.start)) :=
  Or.inr ⟨cleared.behind_entry, cleared.behind⟩

theorem listing_old : listing entries LfnState.start = listing before LfnState.start ++
      (⟨found, (stateAfter (before ++ run) LfnState.start).hasLfn,
        (stateAfter (before ++ run) LfnState.start).nameOf found.slot⟩ ::
        listing after LfnState.start) := by
  have parts := listing_lfn cleared.parts (stateAfter before LfnState.start)
  have idle : ∀ state : LfnState, state.hasLfn = false →
      listing after state = listing after LfnState.start :=
    fun _ idle => listing_of_idle idle rfl
  rw [cleared.old, ← append_assoc, listing_append cleared.used,
    listing_append cleared.front, parts, append_nil, listing_entry cleared.entry, idle _ rfl]

theorem listing_new' : listing entries' LfnState.start =
      listing before LfnState.start ++ listing after LfnState.start := by
  have vacant : ∀ other ∈ gone, Slot.vacant other.slot = true := by
    intro other member
    unfold Slot.vacant
    rw [cleared.deleted other member]
    rfl
  have zeros : ¬gone.any (fun other => other.slot.mark == 0) = true := by
    intro some'
    obtain ⟨other, member, zero⟩ := any_eq_true.mp some'
    rw [cleared.deleted other member] at zero
    exact absurd zero (by decide)
  have idle : listing after (stateAfter before LfnState.start) =
      listing after LfnState.start := listing_of_idle cleared.idle rfl
  rw [cleared.new, listing_append cleared.front,
    listing_vacant vacant after cleared.idle, if_neg zeros, idle]

theorem ends (ordered : Ended entries) : Ended entries' := by
  rw [cleared.old, ← append_assoc] at ordered
  have parts := pairwise_append.mp ordered
  rw [cleared.new]
  refine pairwise_append.mpr ⟨(pairwise_append.mp parts.1).1,
    pairwise_append.mpr ⟨?_, (pairwise_cons.mp parts.2.1).2, ?_⟩, ?_⟩
  · refine List.Pairwise.imp_of_mem (fun first _ _ zero => ?_)
      (pairwise_of_forall (R := fun _ _ => True) (fun _ _ => trivial))
    rw [cleared.deleted _ first] at zero
    exact absurd zero deletedMark_ne
  · intro other member _ _ zero
    rw [cleared.deleted other member] at zero
    exact absurd zero deletedMark_ne
  · intro other member _ _ zero
    exact absurd zero (cleared.front other member)

theorem whole (ordered : Whole entries LfnState.start) : Whole entries' LfnState.start := by
  rw [cleared.old] at ordered
  obtain ⟨front, rest⟩ := whole_append.mp ordered
  obtain ⟨_, rest⟩ := whole_append.mp rest
  rw [← singleton_append] at rest
  obtain ⟨_, rest⟩ := whole_append.mp rest
  rw [cleared.new]
  exact whole_append.mpr ⟨front, whole_append.mpr
    ⟨whole_deleted cleared.deleted cleared.idle, rest.alike cleared.alike⟩⟩

theorem complete (ordered : (stateAfter entries LfnState.start).hasLfn = false) :
    (stateAfter entries' LfnState.start).hasLfn = false := by
  rw [cleared.old, stateAfter_append, stateAfter_append, ← singleton_append,
    stateAfter_append] at ordered
  rw [cleared.new, stateAfter_append, stateAfter_append, ← (cleared.alike.after after).hasLfn]
  exact ordered

end

end Cleared

/-! ### The removal -/

/-- The long name of the entry begins in an earlier cluster. -/
def Straddles (v : Volume) (cs : List Nat) (found : Found) : Prop :=
  ∃ before after, cs = before ++ found.cluster :: after ∧
    (∀ part ∈ (v.slots found.cluster).take found.index, part.attr = attrLfn) ∧
    (stateAfter (innerRecords v before) LfnState.start).hasLfn = true

theorem idle_before {v : Volume} {cs front back : List Nat} {found : Found}
    {pre run post : List Slot} (inOne : ¬Straddles v cs found) (chain : cs = front ++
    found.cluster :: back) (around : Around (v.slots found.cluster) pre run found.slot post)
    (place : pre.length + run.length = found.index) : (stateAfter (innerRecords v front ++
      located found.cluster (viewed back.isEmpty pre) 0) LfnState.start).hasLfn = false := by
  rcases eq_nil_or_concat pre with rfl | ⟨init, last, rfl⟩
  · have none : located found.cluster (viewed back.isEmpty []) 0 = [] := by
      cases back <;> rfl
    rw [none, append_nil]
    refine eq_false_of_ne_true (fun busy => inOne ⟨front, back, chain, ?_, busy⟩)
    intro part member
    rw [around.split, ← place, nil_append, length_nil, zero_add, append_assoc, take_left] at member
    exact around.parts part member
  · rw [concat_eq_append, viewed_append, located_append, ← append_assoc]
    have plain : last.attr ≠ attrLfn := around.edge last (by simp)
    obtain ⟨slot, one, attr⟩ : ∃ slot, viewed back.isEmpty [last] = [slot] ∧
        slot.attr = last.attr := by
      cases back with
      | nil => exact ⟨last, rfl, rfl⟩
      | cons =>
        refine ⟨_, rfl, ?_⟩
        dsimp only
        split <;> rfl
    rw [one]
    exact stateAfter_plain _ (by rw [attr]; exact plain) _

theorem viewed_attr {isLast : Bool} {slots : List Slot} {slot : Slot}
    (member : slot ∈ viewed isLast slots) : ∃ old ∈ slots, slot.attr = old.attr := by
  cases isLast with
  | true => exact ⟨slot, member, rfl⟩
  | false =>
    obtain ⟨old, there, rfl⟩ := mem_map.mp member
    refine ⟨old, there, ?_⟩
    split <;> rfl

/-- The directory without an entry. -/
structure Removed (v v' : Volume) (dir : Nat) (cs : List Nat) (x : Shown) : Prop where
  shape : Shape v v'
  coherent : Coherent v'
  table : v'.table = v.table
  slots : v'.slots = Function.update v.slots x.found.cluster
    (removeAt (v.slots x.found.cluster) x.found.index)
  member : x.found.cluster ∈ cs
  dirAt : DirAt v' dir cs
  orderly : Orderly v' cs
  shown : ∃ before after, Fat.shown v cs = before ++ x :: after ∧ Fat.shown v' cs = before ++ after

theorem dirRemoveEntry_removed {v : Volume} {dir : Nat} {cs : List Nat}
    (dirAt : DirAt v dir cs) (reliable : DirReliable v) (orderly : Orderly v cs)
    {x : Shown} (member : x ∈ shown v cs) (inOne : ¬Straddles v cs x.found) :
    Removed v (dirRemoveEntry v x.found.cluster x.found.index).2 dir cs x := by
  obtain ⟨before, after, split, entry, used, same⟩ := listing_member member
  obtain ⟨front, back, pre', post', chain, view, place, before'⟩ := records_split_at split
  obtain ⟨whole, post, slots, viewPre, viewPost⟩ := viewed_split view (entry_iff.mp entry).2.1
  obtain ⟨pre, run, rfl, around⟩ := around_of_split slots
  have index : pre.length + run.length = x.found.index := by
    rw [← place, ← viewPre, viewed_length, length_append]
  have inside : x.found.cluster ∈ cs := by
    rw [chain]
    simp
  have idle := idle_before inOne chain around index
  obtain ⟨shape, coherent, table, slots'⟩ := writeSlots_spec dirAt.sound.coherent
    reliable (dirAt.chain.valid _ inside).1 (removeAt (v.slots x.found.cluster) x.found.index)
  change Shape v (dirRemoveEntry v x.found.cluster x.found.index).2 at shape
  change Coherent (dirRemoveEntry v x.found.cluster x.found.index).2 at coherent
  change (dirRemoveEntry v x.found.cluster x.found.index).2.table = _ at table
  change (dirRemoveEntry v x.found.cluster x.found.index).2.slots = _ at slots'
  generalize (dirRemoveEntry v x.found.cluster x.found.index).2 = v' at *
  have here : v'.slots x.found.cluster = pre ++ (run ++ [x.found.slot]).map dropped ++ post := by
    rw [slots', Function.update_self, ← index, around.removed]
  have others : ∀ other, other ≠ x.found.cluster → v'.slots other = v.slots other := by
    intro other apart
    rw [slots', Function.update_of_ne apart]
  -- the records before and after, and what is around those that change
  have distinct := dirAt.chain.linked.nodup
  subst chain
  obtain ⟨_, rest, apart⟩ := nodup_append.mp distinct
  have inner : innerRecords v' front = innerRecords v front := by
    refine innerRecords_same (fun other there => others other ?_)
    rintro rfl
    exact apart _ there _ mem_cons_self rfl
  have behind : records v' back = records v back := by
    refine records_same (fun other there => others other ?_)
    rintro rfl
    exact (nodup_cons.mp rest).1 there
  have old := records_around front back around.split
  have new := records_around front back here
  have live : ∀ slot ∈ [x.found.slot], slot.mark ≠ 0 := by
    intro slot there
    rw [mem_singleton.mp there]
    exact (entry_iff.mp entry).1
  have gone : ∀ slot ∈ (run ++ [x.found.slot]).map dropped, slot.mark = deletedMark := by
    intro slot there
    obtain ⟨_, _, rfl⟩ := mem_map.mp there
    rfl
  have gone' : ∀ slot ∈ (run ++ [x.found.slot]).map dropped, slot.mark ≠ 0 := by
    intro slot there
    rw [gone slot there]
    exact deletedMark_ne
  rw [inner, behind, viewed_used gone', length_map] at new
  rw [viewed_append, viewed_used live, located_append, viewed_length, index] at old
  rw [← viewPre, viewed_append, located_append, viewed_length, zero_add, ← append_assoc] at before'
  have cleared : Cleared (records v (front ++ x.found.cluster :: back))
      (records v' (front ++ x.found.cluster :: back))
      (innerRecords v front ++ located x.found.cluster (viewed back.isEmpty pre) 0)
      (located x.found.cluster (viewed back.isEmpty run) pre.length) (located x.found.cluster
      ((run ++ [x.found.slot]).map dropped) pre.length) (located x.found.cluster
      (viewed back.isEmpty post) (pre.length + (run ++ [x.found.slot]).length) ++ records v back)
      x.found := {
    old := by
      rw [old]
      simp [located]
    new := by rw [new, append_assoc]
    entry := entry
    parts := by
      intro part there
      obtain ⟨slot, member, attr⟩ := viewed_attr (mem_located there).1
      rw [attr]
      exact around.parts slot member
    used := by
      rw [← before']
      exact used
    deleted := fun other there => gone other.slot (mem_located there).1
    idle := idle }
  refine ⟨shape, coherent, table, slots', inside, ?_, ⟨?_, ?_, ?_⟩, _, _, ?_, cleared.listing_new'⟩
  · refine dirAt.kept shape coherent table (fun other => ?_)
    rw [slots']
    refine update_lengths ?_ other
    rw [← index, around.removed, around.split]
    simp
  · exact ended_iff.mp (cleared.ends (ended_iff.mpr orderly.ended))
  · exact cleared.whole orderly.whole
  · exact cleared.complete orderly.complete
  · refine cleared.listing_old.trans ?_
    rw [← before', ← same]

/-- An entry that is found and then removed leaves the listing alone: every name
but its own is found as before, in a directory that stays well formed, and no
other cluster and no entry of the FAT changes. -/
theorem dir_remove_found {v : Volume} {dir : Nat} {cs : List Nat} (dirAt : DirAt v dir cs)
    (reliable : DirReliable v) (orderly : Orderly v cs) {name : Path} {found : Found}
    (hit : (dirFindEntry v dir name).1 = some found) (inOne : ¬Straddles v cs found) :
    ∃ v' before x after,
    (dirRemoveEntry v found.cluster found.index).2 = v' ∧ DirAt v' dir cs ∧ Orderly v' cs ∧
      v'.table = v.table ∧ (∀ cluster ≠ found.cluster, v'.slots cluster = v.slots cluster) ∧
      x.found = found ∧ shown v cs = before ++
      x :: after ∧ shown v' cs = before ++ after ∧ ∀ other, nameEqCi other x.name = false →
        (dirFindEntry v' dir other).1 = (dirFindEntry v dir other).1 := by
  rw [(dirFindEntry_shown dirAt name).1] at hit
  obtain ⟨x, first, rfl⟩ := Option.map_eq_some_iff.mp hit
  have removed := dirRemoveEntry_removed dirAt reliable orderly (mem_of_find?_eq_some first) inOne
  obtain ⟨before, after, was, is⟩ := removed.shown
  refine ⟨_, before, x, after, rfl, removed.dirAt, removed.orderly, removed.table, ?_, rfl, was, is,
    fun other apart => ?_⟩
  · intro cluster apart
    rw [removed.slots, Function.update_of_ne apart]
  · rw [(dirFindEntry_shown dirAt other).1, (dirFindEntry_shown removed.dirAt other).1, was, is]
    simpa using (firstNamed_insert apart before after).symm

/-- The one file of a directory is found and removed. -/
theorem dir_remove_found_desktop : ∃ v' before x after, (dirRemoveEntry desktopFiles 2 1).2 = v' ∧
    shown desktopFiles [2] = before ++ x :: after ∧ shown v' [2] = before ++ after := by
  have hit : (dirFindEntry desktopFiles 2 "desktop FILES".toList).1 =
      some ⟨(desktopFiles.slots 2).getD 1 Slot.zero, 2, 1⟩ := by decide +kernel
  have inOne : ¬Straddles desktopFiles [2] ⟨(desktopFiles.slots 2).getD 1 Slot.zero, 2, 1⟩ := by
    rintro ⟨before, _, split, _, busy⟩
    cases before with
    | nil => cases busy
    | cons _ before => cases before <;> cases split
  obtain ⟨v', before, x, after, same, _, _, _, _, _, was, is, _⟩ := dir_remove_found (rootWith_dirAt
    (by decide)) (fun _ => rfl) (rootWith_orderly (by decide) (by decide +kernel)) hit inOne
  exact ⟨v', before, x, after, same, was, is⟩

end MainDob.Fs.Fat
