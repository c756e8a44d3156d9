/-
Purpose: When `dir_add_entry` has room, and what it leaves of everything else. It succeeds exactly
  where a cluster of the directory has a run of vacant records that is long enough or the volume
  has a free cluster; whether it does or not, other directories show what they did, and a lookup
  in the directory itself changes for the new name only.
Main exports: dirAddEntry_room, Gained, Spared
-/
import MainDob.Proofs.DirRemovals

namespace MainDob.Fs.Fat

open List Function

/-! ### Room -/

variable {v v' : Volume}

theorem stored83_some (entries : List Shown) (name : Path) :
    ∃ short, stored83 entries name = some short := by
  unfold stored83
  by_cases long : needsLfn name = true
  · rw [if_pos long]
    exact ⟨_, rfl⟩
  have plain := plain_of_needsLfn long
  have parts : ¬(name = [] ∨ name.head? = some '.') := by
    rintro (rfl | first)
    · exact plain.some' rfl
    cases base : (splitDot name).1 with
    | nil => exact plain.some' base
    | cons =>
      refine long ?_
      unfold needsLfn
      cases splitDot name with
      | mk => simp [first]
  rw [if_neg long]
  unfold encode83Name
  rw [if_neg parts]
  exact ⟨_, rfl⟩

variable {dir : Nat} {cs : List Nat}

theorem dirAddEntry_room (dirAt : DirAt v dir cs) (reliable : DirReliable v)
    (name : Path) (first size attr : Nat) : (dirAddEntry v dir name first size attr).1 = true ↔
      HasRun v.slots cs (lfnCount name + 1) ∨ HasFree v := by
  obtain ⟨short, kept⟩ := stored83_some (shown v cs) name
  obtain ⟨_, _, _, addition⟩ := dirAddEntry_addition dirAt reliable name first size attr kept
  rw [← newEntries_length name (lfnCount name) short first size attr]
  cases result : dirAddEntry v dir name first size attr with
  | mk =>
    rw [result] at addition
    cases addition with
    | @within _ after cluster start before split run table slots =>
      refine iff_of_true rfl (.inl ⟨cluster, by rw [split]; simp, ?_⟩)
      rw [run]
      rfl
    | @beyond _ last added before split least bound free table slots =>
      exact iff_of_true rfl (.inr ⟨added, least, bound, free⟩)
    | full _ _ run free => exact iff_of_false Bool.false_ne_true (not_or.mpr ⟨run, free⟩)

/-! ### Other directories -/

theorem Addition.elsewhere {cs' others : List Nat} {new : List Slot} {ok : Bool}
    (addition : Addition v cs new cs' (ok, v')) (shape : Shape v v') (coherent : Coherent v')
    (other : DirAt v dir others) (apart : ∀ cluster ∈ others, cluster ∉ cs) :
    DirAt v' dir others ∧ ∀ cluster ∈ others, v'.slots cluster = v.slots cluster := by
  -- the clusters keep their records, and their entries in the table
  have same : (∀ cluster ∈ others, v'.slots cluster = v.slots cluster) ∧
      ∀ cluster ∈ others, v'.table cluster = v.table cluster := by
    cases addition with
    | @within _ after cluster start before split run table slots =>
      refine ⟨fun c member => ?_, fun c _ => by rw [table]⟩
      rw [slots, update_of_ne]
      rintro rfl
      exact apart c member (by rw [split]; simp)
    | @beyond _ last added before split least bound free table slots =>
      have outside : ∀ c ∈ others, c ≠ added ∧ c ≠ last := by
        intro c member
        refine ⟨?_, ?_⟩
        · rintro rfl
          exact other.chain.not_free member free
        · rintro rfl
          exact apart c member (by rw [split]; simp)
      refine ⟨fun c member => ?_, fun c member => ?_⟩
      · obtain ⟨new', old⟩ := outside c member
        rw [slots, update_of_ne new', update_of_ne old]
      · obtain ⟨new', old⟩ := outside c member
        rw [table, linkOne_outside new' old]
    | @full _ last before split _ _ table slots =>
      refine ⟨fun c member => ?_, fun c _ => by rw [table]⟩
      rw [slots, update_of_ne]
      rintro rfl
      exact apart c member (by rw [split]; simp)
  refine ⟨⟨other.sound.of_shape shape coherent, ?_, other.first, ?_⟩, same.1⟩
  · rw [shape.limit]
    exact other.chain.congr same.2
  · intro cluster member
    rw [same.1 cluster member, Shape.slotsPerCluster shape]
    exact other.filled cluster member

/-! ### Lookups in the directory -/

theorem nameEqCi_congr {a b c : Path} (same : nameEqCi b c = true) :
    nameEqCi a b = nameEqCi a c := by
  rw [Bool.eq_iff_iff]
  exact ⟨fun first => nameEqCi_trans first same,
    fun first => nameEqCi_trans first (nameEqCi_symm same)⟩

/-- A directory that has got an entry: lookups change for its name only. -/
structure Gained (v v' : Volume) (dir : Nat) (cs cs' : List Nat) (name : Path)
    (first size attr : Nat) (found : Found) : Prop where
  dirAt : DirAt v' dir cs'
  fields : found.slot.cluster = first ∧ found.slot.size = size ∧ found.slot.attr = attr
  lookup : ∀ other, firstNamed other (shown v' cs') =
    if nameEqCi other name then some found else firstNamed other (shown v cs)

theorem dirAddEntry_gains (dirAt : DirAt v dir cs) (reliable : DirReliable v)
    (orderly : Orderly v cs) {name : Path} (passable : Passable name)
    (unknown : firstNamed name (shown v cs) = none) {first size attr : Nat}
    (entry : attr.testBit 3 = false) (storable : Storable v name)
    (ok : (dirAddEntry v dir name first size attr).1 = true) : ∃ cs' found, Gained v
    (dirAddEntry v dir name first size attr).2 dir cs cs' name first size attr found := by
  obtain ⟨short, cs', kept, dirAt', _, fits, _⟩ := dirAddEntry_inserted
    dirAt reliable orderly passable entry ok
  obtain ⟨_, readable⟩ := stored_readable passable kept first size attr
  obtain ⟨live, hit⟩ := readable.mpr storable.2
  obtain ⟨cluster, start, old, new, inserted⟩ := fits storable.1
  have shown' := inserted.new
  unfold newShown at shown'
  rw [if_neg live] at shown'
  rw [inserted.old] at unknown
  have unseen : firstNamed name old = none :=
    firstNamed_none.mpr (fun other member =>
      firstNamed_none.mp unknown other (mem_append_left _ member))
  refine ⟨cs', ⟨storedSlot short first size attr, cluster, start + lfnCount name⟩,
    dirAt', ⟨rfl, rfl, rfl⟩, fun other => ?_⟩
  rw [shown', inserted.old]
  by_cases same : nameEqCi other name = true
  · rw [if_pos same, firstNamed_same same]
    exact firstNamed_here unseen hit new
  · rw [if_neg same]
    refine firstNamed_insert ?_ old new
    rw [← nameEqCi_congr hit]
    exact eq_false_of_ne_true same

theorem patchFound_vacant (found : Found) :
    Slot.vacant (patchFound found).slot = Slot.vacant found.slot := by
  unfold patchFound
  by_cases zero : found.slot.mark = 0
  · unfold Slot.vacant
    rw [if_pos zero, zero]
    rfl
  · rw [if_neg zero]

theorem findRun_patched (total : Nat) : ∀ (slots : List Slot)
    (index runStart runLen : Nat), findRun total (patched slots) index runStart
      runLen = findRun total slots index runStart runLen
  | [], _, _, _ => rfl
  | slot :: rest, index, runStart, runLen => by
    have here : Slot.vacant (if slot.mark = 0 then
        { slot with mark := deletedMark } else slot) = Slot.vacant slot :=
      patchFound_vacant ⟨slot, 0, 0⟩
    rw [patched_cons]
    unfold findRun
    dsimp only
    rw [here]
    split
    · split
      · rfl
      · exact findRun_patched total rest _ _ _
    · exact findRun_patched total rest _ _ _

theorem HasRun.update {slots : Nat → List Slot} {total last : Nat} : HasRun
    (Function.update slots last (patched (slots last))) cs total ↔ HasRun slots cs total := by
  have same : ∀ cluster, findRun total (Function.update slots last
      (patched (slots last)) cluster) 0 0 0 = findRun total (slots cluster) 0 0 0 := by
    intro cluster
    by_cases here : cluster = last
    · rw [here, update_self, findRun_patched]
    · rw [update_of_ne here]
  unfold HasRun
  simp only [same]

theorem records_patched {before : List Nat} {last : Nat} (distinct : (before ++ [last]).Nodup)
    (slots : v'.slots = Function.update v.slots last (patched (v.slots last))) :
    records v' (before ++ [last]) = (records v (before ++ [last])).map patchFound := by
  obtain ⟨_, _, apart⟩ := nodup_append.mp distinct
  have inner : innerRecords v' before = innerRecords v before := by
    refine innerRecords_same (fun other member => ?_)
    rw [slots, update_of_ne]
    exact apart other member last mem_cons_self
  rw [records_split, records_split, inner, map_append, map_append,
    patchFound_used (innerRecords_marks v _), slots, update_self]
  unfold viewed records
  rw [isEmpty_nil, if_pos rfl, if_pos rfl, located_patched]
  rfl

theorem orderly_patched (orderly : Orderly v cs)
    (patch : records v' cs = (records v cs).map patchFound) :
    Orderly v' cs ∧ shown v' cs = shown v cs := by
  have marks : ∀ found ∈ records v' cs, found.slot.mark ≠ 0 := by
    intro found member
    rw [patch] at member
    obtain ⟨_, _, rfl⟩ := mem_map.mp member
    unfold patchFound
    split
    · exact deletedMark_ne
    · next used => exact used
  obtain ⟨front, back, split, used, zero⟩ := split_zeros (records v cs)
  rw [split, map_append, patchFound_used used] at patch
  -- behind the records that were used, all are deleted now
  have deleted : ∀ found ∈ back.map patchFound, found.slot.mark = deletedMark := by
    intro found member
    obtain ⟨old, there, rfl⟩ := mem_map.mp member
    have none : old.slot.mark = 0 := by
      cases back with
      | nil => cases there
      | cons first rest =>
        rcases mem_cons.mp there with rfl | later
        · exact zero _ rfl
        · exact orderly.ended front first rest split (zero _ rfl) old later
    unfold patchFound
    rw [if_pos none]
  have idle : back ≠ [] → (stateAfter front LfnState.start).hasLfn = false := by
    intro some'
    cases back with
    | nil => exact absurd rfl some'
    | cons first rest =>
      refine orderly.whole front first rest split ?_
      unfold Slot.vacant
      rw [zero _ rfl]
      rfl
  have whole : Whole front LfnState.start := by
    have all : Whole (records v cs) LfnState.start := orderly.whole
    rw [split] at all
    exact (whole_append.mp all).1
  obtain ⟨_, _, same⟩ := listing_extended orderly []
  rw [append_nil, split, map_append, patchFound_used used, ← patch] at same
  refine ⟨⟨?_, ?_, ?_⟩, same.trans (append_nil _)⟩
  · intro before found rest cut none
    exact absurd none (marks found (by rw [cut]; simp))
  · change Whole (records v' cs) LfnState.start
    rw [patch]
    refine whole_append.mpr ⟨whole, ?_⟩
    cases back with
    | nil =>
      intro before found rest cut
      cases before <;> cases cut
    | cons => exact whole_deleted deleted (idle (cons_ne_nil _ _))
  · rw [patch, stateAfter_append]
    cases back with
    | nil =>
      have complete := orderly.complete
      rw [split, append_nil] at complete
      exact complete
    | cons => exact stateAfter_deleted deleted (idle (cons_ne_nil _ _))

/-- A directory that has not got an entry. -/
structure Spared (v v' : Volume) (dir : Nat) (cs : List Nat) : Prop where
  dirAt : DirAt v' dir cs
  orderly : Orderly v' cs
  shown : Fat.shown v' cs = Fat.shown v cs
  table : v'.table = v.table
  runs : ∀ others total, HasRun v'.slots others total ↔ HasRun v.slots others total

theorem dirAddEntry_spared (dirAt : DirAt v dir cs) (reliable : DirReliable v)
    (orderly : Orderly v cs) {name : Path} {first size attr : Nat}
    (full : (dirAddEntry v dir name first size attr).1 = false) :
    Spared v (dirAddEntry v dir name first size attr).2 dir cs := by
  obtain ⟨short, kept⟩ := stored83_some (shown v cs) name
  obtain ⟨shape, coherent, _, addition⟩ := dirAddEntry_addition dirAt reliable
    name first size attr kept
  have some' : 0 < (newEntries name (lfnCount name) short first size attr).length := by
    rw [newEntries_length]
    exact Nat.succ_pos _
  cases result : dirAddEntry v dir name first size attr with
  | mk =>
    rw [result] at addition full shape coherent
    have dirAt' := addition.dirAt dirAt shape coherent some'
    cases addition with
    | within | beyond => cases full
    | @full _ last before split _ _ table slots =>
      have distinct := dirAt.chain.linked.nodup
      rw [split] at distinct
      have patch := records_patched distinct slots
      rw [← split] at patch
      obtain ⟨orderly', same⟩ := orderly_patched orderly patch
      refine ⟨dirAt', orderly', same, table, fun others total => ?_⟩
      rw [slots]
      exact HasRun.update

end MainDob.Fs.Fat
