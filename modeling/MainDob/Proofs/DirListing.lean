/-
Purpose: A directory as one list. `dir_iterate` goes through the clusters of a chain and keeps the
  long name it is putting together across their ends; what it shows is the listing of the records
  of all clusters, one after the other, and a lookup is the first match in it.
Main exports: DirAt, records, listing
-/
import MainDob.Fs.Dir
import MainDob.Proofs.ClusterChains
import MainDob.Proofs.Confinement

namespace MainDob.Fs.Fat

open List

/-! ### Records and what they show -/

/-- The records of a cluster with their places. -/
def located (cluster : Nat) : List Slot → Nat → List Found
  | [], _ => []
  | slot :: rest, index => ⟨slot, cluster, index⟩ :: located cluster rest (index + 1)

/-- The records of a directory as a scan takes them: only in the last cluster
does a first byte of zero end the directory. -/
def records (v : Volume) : List Nat → List Found
  | [] => []
  | [last] => located last (v.slots last) 0
  | cluster :: next :: rest =>
    located cluster (patched (v.slots cluster)) 0 ++ records v (next :: rest)

/-- An entry as the callback of a scan gets it, and whether the name is a long
one. -/
structure Shown where
  found : Found
  long : Bool
  name : Path
deriving DecidableEq, Repr

/-- The name an entry is shown under. -/
def LfnState.nameOf (state : LfnState) (slot : Slot) : Path :=
  if state.hasLfn then cString state.buf else decode83Name slot

/-- No long name is being put together. -/
def LfnState.idle (state : LfnState) : LfnState := ⟨false, state.buf⟩

/-- The entries a scan shows. -/
def listing : List Found → LfnState → List Shown
  | [], _ => []
  | found :: rest, state =>
    if found.slot.mark = 0 then []
    else if found.slot.mark = deletedMark then listing rest state.idle
    else if found.slot.attr = attrLfn then listing rest (state.meet found.slot)
    else if Slot.volumeId found.slot then listing rest state.idle
    else ⟨found, state.hasLfn, state.nameOf found.slot⟩ :: listing rest state.idle

/-- The first entry a callback stops at. -/
def firstStop (stop : Slot → Path → Bool) (entries : List Shown) : Option Found :=
  (entries.find? fun entry => stop entry.found.slot entry.name).map Shown.found

/-- `dir` is the first cluster of a directory with the clusters `cs`. -/
structure DirAt (v : Volume) (dir : Nat) (cs : List Nat) : Prop where
  sound : FatSound v
  chain : Chain v.table v.limit cs
  first : cs.head? = some dir
  filled : ∀ cluster ∈ cs, (v.slots cluster).length = slotsPerCluster v

/-- The entries of a directory. -/
def shown (v : Volume) (cs : List Nat) : List Shown :=
  listing (records v cs) LfnState.start

/-! ### The scan and the listing -/

theorem patched_cons (slot : Slot) (rest : List Slot) :
    patched (slot :: rest) = (if slot.mark = 0 then { slot with mark := deletedMark } else slot) ::
        patched rest := rfl

theorem located_cons (cluster : Nat) (slot : Slot) (rest : List Slot)
    (index : Nat) : located cluster (slot :: rest) index =
      ⟨slot, cluster, index⟩ :: located cluster rest (index + 1) := rfl

variable {rest : List Found} {state : LfnState}

theorem listing_end {found : Found} (zero : found.slot.mark = 0) :
    listing (found :: rest) state = [] := by
  rw [listing, if_pos zero]

theorem deletedMark_ne : deletedMark ≠ 0 := by decide

theorem listing_deleted {found : Found} (deleted : found.slot.mark = deletedMark) :
    listing (found :: rest) state = listing rest state.idle := by
  rw [listing, if_neg (by rw [deleted]; exact deletedMark_ne), if_pos deleted]

theorem listing_used {found : Found} (zero : found.slot.mark ≠ 0)
    (deleted : found.slot.mark ≠ deletedMark) : listing (found :: rest) state =
      if found.slot.attr = attrLfn then listing rest (state.meet found.slot)
      else if Slot.volumeId found.slot then listing rest state.idle
      else ⟨found, state.hasLfn, state.nameOf found.slot⟩ :: listing rest state.idle := by
  rw [listing, if_neg zero, if_neg deleted]

theorem listing_scanned (isLast : Bool) (cluster index : Nat) (slot : Slot)
    (slots : List Slot) (rest : List Found) (state : LfnState) :
    let later := listing (located cluster (if isLast then slots else patched slots)
      (index + 1) ++ rest)
    listing (located cluster
        (if isLast then slot :: slots else patched (slot :: slots)) index ++ rest) state =
      if slot.mark = 0 then if isLast then [] else later state.idle
      else if slot.mark = deletedMark then later state.idle
      else if slot.attr = attrLfn then later (state.meet slot)
      else if Slot.volumeId slot then later state.idle
      else ⟨⟨slot, cluster, index⟩, state.hasLfn, state.nameOf slot⟩ :: later state.idle := by
  intro later
  by_cases zero : slot.mark = 0
  · rw [if_pos zero]
    cases isLast with
    | true => exact listing_end zero
    | false =>
      rw [if_neg Bool.false_ne_true, patched_cons, if_pos zero, located_cons,
        cons_append, listing_deleted rfl]
      rfl
  · have kept : (if isLast then slot :: slots else patched (slot :: slots)) =
        slot :: (if isLast then slots else patched slots) := by
      cases isLast with
      | true => rfl
      | false =>
        rw [if_neg Bool.false_ne_true, if_neg Bool.false_ne_true, patched_cons, if_neg zero]
    rw [kept, located_cons, cons_append, listing, if_neg zero, if_neg zero]

/-- What is made of where a scan of a cluster gets to. -/
def continued (stop : Slot → Path → Bool) (rest : List Found) : Scan → Option Found
  | .found entry => some entry
  | .ended => none
  | .more state => firstStop stop (listing rest state)

theorem scanSlots_listing (stop : Slot → Path → Bool) (isLast : Bool)
    (cluster : Nat) (rest : List Found) : ∀ (slots : List Slot) (index : Nat) (state : LfnState),
      continued stop rest (scanSlots stop isLast cluster slots index state) =
      firstStop stop (listing
        (located cluster (if isLast then slots else patched slots) index ++ rest) state) := by
  intro slots
  induction slots with
  | nil =>
    intro index state
    cases isLast <;> rfl
  | cons slot _ ih =>
    intro index state
    rw [scanSlots, listing_scanned]
    dsimp only
    split
    · cases isLast with
      | true => rfl
      | false => exact ih (index + 1) state.idle
    split
    · exact ih (index + 1) state.idle
    split
    · exact ih (index + 1) (state.meet slot)
    split
    · exact ih (index + 1) state.idle
    unfold firstStop
    rw [List.find?_cons]
    unfold LfnState.nameOf
    cases stop slot (if state.hasLfn = true then cString state.buf else decode83Name slot) with
    | true => rfl
    | false => exact ih (index + 1) state.idle

theorem records_congr {v v' : Volume} (same : v'.slots = v.slots) :
    ∀ cs, records v' cs = records v cs
  | [] => rfl
  | [last] => by
    unfold records
    rw [same]
  | cluster :: next :: rest => by
    unfold records
    rw [same, records_congr same (next :: rest)]

theorem iterLoop_listing (stop : Slot → Path → Bool) : ∀ (cs : List Nat)
    {fuel cluster : Nat} {v : Volume} (state : LfnState), FatSound v →
    Chain v.table v.limit (cluster :: cs) → cs.length < fuel →
    (iterLoop stop fuel v cluster state).1 = firstStop stop
        (listing (records v (cluster :: cs)) state) ∧ Seen v (iterLoop stop fuel v cluster state).2
  | _, 0, _, _, _, _, _, enough => absurd enough (Nat.not_lt_zero _)
  | cs, fuel + 1, cluster, v, state, sound, chain, enough => by
    obtain ⟨value, seen, proper⟩ := chain.head_read sound
    unfold iterLoop
    rw [if_pos proper]
    dsimp only
    rw [value, seen.slots]
    cases cs with
    | nil =>
      have scan := scanSlots_listing stop true cluster [] (v.slots cluster) 0 state
      rw [if_pos rfl, append_nil] at scan
      rw [chain.last, records, ← scan]
      cases scanSlots stop true cluster (v.slots cluster) 0 state with
      | found | ended => exact ⟨rfl, seen⟩
      | more state =>
        have stopped : iterLoop stop fuel (fatRead v cluster).2
            (v.table cluster) state = (none, (fatRead v cluster).2) := by
          cases fuel with
          | zero => rfl
          | succ =>
            unfold iterLoop
            rw [chain.last, if_neg (fun more => Bool.noConfusion more.2)]
        dsimp only
        rw [stopped]
        exact ⟨rfl, seen⟩
    | cons next rest =>
      obtain ⟨follows, more, tail⟩ := chain.next
      have later := fun state => iterLoop_listing stop rest state (sound.of_seen seen)
        (tail.of_seen seen) (Nat.lt_of_succ_lt_succ enough : rest.length < fuel)
      rw [records_congr seen.slots] at later
      have scan := scanSlots_listing stop false cluster
        (records v (next :: rest)) (v.slots cluster) 0 state
      rw [if_neg Bool.false_ne_true] at scan
      rw [more, records, ← scan]
      cases scanSlots stop false cluster (v.slots cluster) 0 state with
      | found | ended => exact ⟨rfl, seen⟩
      | more state =>
        rw [follows]
        exact ⟨(later state).1, seen.trans (later state).2⟩

/-! ### Lookups -/

namespace DirAt

variable {v v' : Volume} {dir : Nat} {cs : List Nat}

theorem of_seen (dirAt : DirAt v dir cs) (seen : Seen v v') : DirAt v' dir cs where
  sound := dirAt.sound.of_seen seen
  chain := dirAt.chain.of_seen seen
  first := dirAt.first
  filled := by
    intro cluster member
    unfold slotsPerCluster
    rw [seen.slots, seen.bytesPerCluster]
    exact dirAt.filled cluster member

theorem head (dirAt : DirAt v dir cs) :
    ∃ rest, cs = dir :: rest ∧ rest.length < v.totalClusters + 3 := by
  have length := dirAt.chain.length_le
  unfold Volume.limit at length
  cases cs with
  | nil => cases dirAt.first
  | cons cluster rest =>
    rw [length_cons] at length
    exact ⟨rest, congrArg (· :: rest) (Option.some.inj dirAt.first), by omega⟩

theorem unique {other : List Nat} (dirAt : DirAt v dir cs)
    (dirAt' : DirAt v dir other) : cs = other :=
  dirAt.chain.linked.unique dirAt'.chain.linked (dirAt.first.trans dirAt'.first.symm)

end DirAt

theorem shown_congr {v v' : Volume} (same : v'.slots = v.slots) (cs : List Nat) :
    shown v' cs = shown v cs := by
  unfold shown
  rw [records_congr same]

theorem dirIterate_shown {v : Volume} {dir : Nat} {cs : List Nat}
    (dirAt : DirAt v dir cs) (stop : Slot → Path → Bool) :
    (dirIterate v dir stop).1 = firstStop stop (shown v cs) ∧ Seen v (dirIterate v dir stop).2 := by
  obtain ⟨rest, rfl, enough⟩ := dirAt.head
  exact iterLoop_listing stop rest LfnState.start dirAt.sound dirAt.chain enough

/-- The first entry shown under a name. -/
def firstNamed (name : Path) (entries : List Shown) : Option Found :=
  (entries.find? fun entry => nameEqCi name entry.name).map Shown.found

theorem dirFindEntry_shown {v : Volume} {dir : Nat} {cs : List Nat}
    (dirAt : DirAt v dir cs) (name : Path) : (dirFindEntry v dir name).1 = firstNamed name
    (shown v cs) ∧ Seen v (dirFindEntry v dir name).2 :=
  dirIterate_shown dirAt fun _ other => nameEqCi name other

theorem firstNamed_none {name : Path} {entries : List Shown} :
    firstNamed name entries = none ↔ ∀ entry ∈ entries, nameEqCi name entry.name = false := by
  unfold firstNamed
  rw [Option.map_eq_none_iff, List.find?_eq_none]
  simp only [Bool.not_eq_true]

/-! ### Parts of a listing -/

/-- Where the parts of a long name stand after records that do not end the
directory. -/
def stateAfter : List Found → LfnState → LfnState
  | [], state => state
  | found :: rest, state =>
    if found.slot.mark ≠ deletedMark ∧ found.slot.attr = attrLfn then
      stateAfter rest (state.meet found.slot)
    else stateAfter rest state.idle

theorem listing_append : ∀ {before : List Found},
    (∀ found ∈ before, found.slot.mark ≠ 0) → ∀ (rest : List Found)
    (state : LfnState), listing (before ++ rest) state =
      listing before state ++ listing rest (stateAfter before state)
  | [], _, _, _ => rfl
  | found :: before, inUse, rest, state => by
    have zero := inUse found mem_cons_self
    have later := listing_append (fun other member => inUse other (mem_cons_of_mem _ member)) rest
    rw [cons_append, stateAfter]
    by_cases deleted : found.slot.mark = deletedMark
    · rw [listing_deleted deleted, listing_deleted deleted,
        if_neg (fun both => both.1 deleted), later]
    rw [listing_used zero deleted, listing_used zero deleted]
    by_cases part : found.slot.attr = attrLfn
    · rw [if_pos part, if_pos part, if_pos ⟨deleted, part⟩, later]
    have other : ¬(found.slot.mark ≠ deletedMark ∧ found.slot.attr = attrLfn) :=
      fun both => part both.2
    rw [if_neg part, if_neg part, if_neg other, later]
    split
    · rfl
    · rw [cons_append]

theorem listing_idle : ∀ (rest : List Found) (buf other : List Char),
    listing rest ⟨false, buf⟩ = listing rest ⟨false, other⟩
  | [], _, _ => rfl
  | found :: rest, buf, other => by
    by_cases zero : found.slot.mark = 0
    · rw [listing_end zero, listing_end zero]
    by_cases deleted : found.slot.mark = deletedMark
    · rw [listing_deleted deleted, listing_deleted deleted]
      exact listing_idle rest buf other
    rw [listing_used zero deleted, listing_used zero deleted]
    split
    · unfold LfnState.meet
      by_cases first : found.slot.mark.testBit 6 = true
      · rw [if_pos first, if_pos first]
      · rw [if_neg first, if_neg first]
        exact listing_idle rest buf other
    · have later := listing_idle rest buf other
      unfold LfnState.idle LfnState.nameOf
      rw [if_neg Bool.false_ne_true, if_neg Bool.false_ne_true, later]

theorem listing_of_idle {other : LfnState} (idle : state.hasLfn = false)
    (idle' : other.hasLfn = false) : listing rest state = listing rest other := by
  cases state with
  | mk _ buf =>
    cases other with
    | mk _ buf' =>
      cases idle
      cases idle'
      exact listing_idle rest buf buf'

theorem listing_vacant : ∀ {run : List Found},
    (∀ found ∈ run, Slot.vacant found.slot = true) → ∀ (rest : List Found)
    {state : LfnState}, state.hasLfn = false →
    listing (run ++ rest) state = if run.any (fun found => found.slot.mark == 0) then []
      else listing rest state
  | [], _, _, _, _ => rfl
  | found :: run, vacant, rest, state, idle => by
    have idle' : state.idle.hasLfn = false := rfl
    have later := listing_vacant (fun other member => vacant other (mem_cons_of_mem _ member)) rest
      idle'
    rw [cons_append, any_cons]
    by_cases zero : found.slot.mark = 0
    · rw [listing_end zero, zero]
      rfl
    have deleted : found.slot.mark = deletedMark := by
      have here := vacant found mem_cons_self
      unfold Slot.vacant at here
      rw [Bool.or_eq_true, beq_iff_eq, beq_iff_eq] at here
      exact here.resolve_left zero
    have used : (found.slot.mark == 0) = false := beq_false_of_ne zero
    rw [listing_deleted deleted, later, used, Bool.false_or, listing_of_idle idle' idle]

end MainDob.Fs.Fat
