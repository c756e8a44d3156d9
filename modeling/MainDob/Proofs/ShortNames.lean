/-
Purpose: Whether the short names of a directory stay different. A number is tried through a
  lookup, which sees the short name of an entry only where the entry has no long one: the name
  chosen is new unless an entry with a long name has it already, or all 99 numbers are shown and
  the last one is stored.
Main exports: storedNames, StaysUnique, short_names_unique
-/
import MainDob.Proofs.ChainWalks
import MainDob.Proofs.DirAdditions
import Mathlib.Data.List.Perm.Basic
import Mathlib.Data.List.TakeWhile

namespace MainDob.Fs.Fat

open Function (update)
open List Function

/-! ### Stored short names -/

/-- The eleven characters of a short name in a record. -/
def Slot.short (slot : Slot) : List Char := Char.ofNat slot.mark :: slot.name

/-- The short names that are stored in a directory. -/
def storedNames (v : Volume) (cs : List Nat) : List (List Char) :=
  ((cs.flatMap v.slots).filter Slot.entry).map Slot.short

/-- The short name chosen is new to the directory, and adding an entry with it
leaves the stored names different. -/
def StaysUnique (v : Volume) (dir : Nat) (cs : List Nat) (name : Path) : Prop :=
  (generateShortName v name dir).1 ∉ storedNames v cs ∧ (needsLfn name = true →
    ∀ first size attr cs', DirAt (dirAddEntry v dir name first size attr).2 dir cs' →
      (storedNames (dirAddEntry v dir name first size attr).2 cs').Nodup)

/-- The entry is not shown under its short name. -/
def Masked (v : Volume) (cs : List Nat) (found : Found) : Prop :=
  ∀ entry ∈ shown v cs, entry.found = found → entry.long = true

/-- Some entry is displayed under the short name with the number. -/
def Displayed (v : Volume) (cs : List Nat) (name : Path) (n : Nat) : Prop :=
  shows (shown v cs) (joined83 (numbered83 name n)) = true

instance (v : Volume) (cs : List Nat) (name : Path) (n : Nat) : Decidable (Displayed v cs name n) :=
  inferInstanceAs (Decidable (_ = true))

/-- No stored entry hides a number from the search: an entry that is not displayed
under its own short name has a numbered name that the search comes to (all smaller
numbers are displayed) only where another entry is displayed under that name; and
where all 99 are displayed, no entry has the last. -/
structure NoneMasked (v : Volume) (cs : List Nat) (name : Path) : Prop where
  reached : ∀ n ∈ List.range' 1 99, (∀ m, 1 ≤ m → m < n → Displayed v cs name m) →
    ∀ found ∈ records v cs, Slot.entry found.slot = true →
    Masked v cs found → Slot.short found.slot = numbered83 name n → Displayed v cs name n
  last : (∀ n ∈ List.range' 1 99, Displayed v cs name n) → ∀ found ∈ records v cs,
    Slot.entry found.slot = true → Slot.short found.slot ≠ numbered83 name 99

theorem located_slots (cluster : Nat) : ∀ (slots : List Slot) (index : Nat),
    (located cluster slots index).map Found.slot = slots
  | [], _ => rfl
  | slot :: rest, index => by rw [located_cons, map_cons, located_slots cluster rest]

theorem patched_entries (slots : List Slot) :
    (patched slots).filter Slot.entry = slots.filter Slot.entry := by
  induction slots with
  | nil => rfl
  | cons slot _ ih =>
    rw [patched_cons, filter_cons, filter_cons, ih]
    by_cases zero : slot.mark = 0
    · have free : Slot.entry slot = false := by
        unfold Slot.entry Slot.vacant
        rw [zero]
        rfl
      have free' : Slot.entry { slot with mark := deletedMark } = false := rfl
      rw [if_pos zero, free, free', if_neg Bool.false_ne_true, if_neg Bool.false_ne_true]
    · rw [if_neg zero]

theorem records_entries (v : Volume) : ∀ cs : List Nat,
    ((records v cs).map Found.slot).filter Slot.entry = (cs.flatMap v.slots).filter Slot.entry
  | [] => rfl
  | [last] => by
    unfold records
    rw [located_slots, flatMap_singleton]
  | cluster :: next :: rest => by
    unfold records
    rw [map_append, filter_append, records_entries v (next :: rest),
      located_slots, patched_entries, flatMap_cons (x := cluster), filter_append]

variable {cs : List Nat}

theorem mem_storedNames {v : Volume} {short : List Char} : short ∈ storedNames v cs ↔
    ∃ found ∈ records v cs, Slot.entry found.slot = true ∧ Slot.short found.slot = short := by
  unfold storedNames
  rw [← records_entries, mem_map]
  constructor
  · rintro ⟨_, member, rfl⟩
    obtain ⟨among, entry⟩ := mem_filter.mp member
    obtain ⟨found, there, rfl⟩ := mem_map.mp among
    exact ⟨found, there, entry, rfl⟩
  · rintro ⟨found, there, entry, rfl⟩
    exact ⟨found.slot, mem_filter.mpr ⟨mem_map.mpr ⟨found, there, rfl⟩, entry⟩, rfl⟩

/-! ### What the lookup sees -/

theorem listing_plain : ∀ {rest : List Found} {state : LfnState} {entry : Shown},
    entry ∈ listing rest state → entry.long = false →
    entry.name = decode83Name entry.found.slot
  | [], _, _, member, _ => by cases member
  | found :: rest, state, entry, member, plain => by
    by_cases zero : found.slot.mark = 0
    · rw [listing_end zero] at member
      cases member
    by_cases deleted : found.slot.mark = deletedMark
    · rw [listing_deleted deleted] at member
      exact listing_plain member plain
    rw [listing_used zero deleted] at member
    split at member
    · exact listing_plain member plain
    split at member
    · exact listing_plain member plain
    rcases mem_cons.mp member with rfl | later
    · unfold LfnState.nameOf
      dsimp only at plain ⊢
      rw [plain, if_neg Bool.false_ne_true]
    · exact listing_plain later plain

/-! ### Texts without a terminator -/

variable {chars : List Char}

theorem cString_of_text (text : '\x00' ∉ chars) : cString chars = chars := by
  refine takeWhile_eq_self_iff.mpr ?_
  intro c member
  exact decide_eq_true (fun same => text (same ▸ member))

theorem mem_padded {width : Nat} {c : Char} (member : c ∈ padded width chars) :
    c ∈ chars ∨ c = ' ' := by
  rcases mem_append.mp member with taken | blank
  · exact Or.inl (mem_of_mem_take taken)
  · exact Or.inr (mem_replicate.mp blank).2

theorem padded_length (width : Nat) (chars : List Char) : (padded width chars).length = width := by
  unfold padded
  rw [length_append, length_take, length_replicate]
  omega

variable {name : Path}

theorem mem_splitDot {c : Char} :
    (c ∈ (splitDot name).1 → c ∈ name) ∧ (c ∈ (splitDot name).2.getD [] → c ∈ name) := by
  unfold splitDot
  split
  · refine ⟨fun member => mem_of_mem_take member, fun member => ?_⟩
    have reversed := mem_reverse.mp member
    exact mem_reverse.mp ((takeWhile_sublist _).subset reversed)
  · exact ⟨fun member => member, nofun⟩

theorem repr_text : ∀ n ∈ List.range' 1 99, '\x00' ∉ (Nat.repr n).toList := by decide +kernel

theorem numbered83_text (text : '\x00' ∉ name) {n : Nat}
    (number : n ∈ List.range' 1 99) : '\x00' ∉ numbered83 name n := by
  intro member
  have capital : ∀ {chars : List Char}, (∀ c ∈ chars, c ∈ name) → '\x00' ∉ chars.map upper := by
    intro chars within ends
    obtain ⟨c, there, same⟩ := mem_map.mp ends
    exact text ((upper_eq_mark (by decide)).mp same ▸ within c there)
  rcases mem_append.mp member with base | ext
  · rcases mem_padded base with stem | blank
    · rcases mem_append.mp stem with basis | suffix
      · refine capital (fun c there => ?_) (mem_of_mem_take (mem_of_mem_take basis))
        exact mem_splitDot.1 (mem_filter.mp there).1
      · rcases mem_cons.mp suffix with tilde | digits
        · cases tilde
        · exact repr_text n number digits
    · cases blank
  · rcases mem_padded ext with stem | blank
    · refine capital (fun c there => ?_) stem
      exact mem_splitDot.2 (mem_of_mem_take (mem_filter.mp there).1)
    · cases blank

theorem numbered83_length (name : Path) (n : Nat) : (numbered83 name n).length = 11 := by
  unfold numbered83
  rw [length_append, padded_length, padded_length]

theorem joined83_text (text : '\x00' ∉ chars) : '\x00' ∉ joined83 chars := by
  intro member
  rcases mem_append.mp member with base | ext
  · exact text (mem_of_mem_take ((takeWhile_sublist _).subset base))
  split at ext
  · rcases mem_cons.mp ext with dot | rest
    · cases dot
    · have among := (takeWhile_sublist _).subset rest
      exact text (mem_of_mem_drop (mem_of_mem_take among))
  · cases ext

theorem fold_lower (name : Path) : fold (name.map lower) = fold name := by
  unfold fold
  rw [map_map]
  exact map_congr_left (fun c _ => upper_lower c)

theorem shows_own {entry : Shown} {entries : List Shown} {short : List Char}
    (member : entry ∈ entries) (name : entry.name = decode83Name entry.found.slot)
    (same : Slot.short entry.found.slot = short) (text : '\x00' ∉ short) :
    shows entries (joined83 short) = true := by
  refine any_eq_true.mpr ⟨entry, member, nameEqCi_iff.mpr ?_⟩
  unfold Slot.short at same
  rw [name, decode83Name, same, cString_of_text (joined83_text text), fold_lower]

/-- The number chosen is the first that is not displayed. -/
theorem chosenNumber_some {v : Volume}
    {n : Nat} (chosen : chosenNumber (shown v cs) name = some n) : n ∈ List.range' 1 99 ∧
    ¬ Displayed v cs name n ∧ ∀ m, 1 ≤ m → m < n → Displayed v cs name m := by
  obtain ⟨unshown, number, below⟩ := List.find?_range'_eq_some.mp chosen
  unfold Displayed
  exact ⟨number, by simpa using unshown, fun m least less => by simpa using below m least less⟩

theorem chosenNumber_none {v : Volume} (chosen : chosenNumber (shown v cs) name = none) :
    ∀ n ∈ List.range' 1 99, Displayed v cs name n := by
  intro n number
  have all := List.find?_eq_none.mp chosen n number
  simpa [Displayed] using all

theorem chosen83_new {v : Volume} (text : '\x00' ∉ name) :
    chosen83 (shown v cs) name ∉ storedNames v cs ↔ NoneMasked v cs name := by
  unfold chosen83
  rw [mem_storedNames]
  cases chosen : chosenNumber (shown v cs) name with
  | none =>
    have all := chosenNumber_none chosen
    constructor
    · exact fun new => ⟨fun n number _ _ _ _ _ _ => all n number,
        fun _ found there entry same => new ⟨found, there, entry, same⟩⟩
    · rintro unmasked ⟨found, there, entry, same⟩
      exact unmasked.last all found there entry same
  | some first =>
    obtain ⟨number, hidden, below⟩ := chosenNumber_some chosen
    constructor
    · refine fun new => ⟨fun n inRange below' found there entry _ same => ?_,
        fun all => absurd (all first number) hidden⟩
      by_contra hidden'
      -- both are the first number that is not displayed
      obtain rfl : n = first := by
        rcases Nat.lt_trichotomy n first with less | equal | more
        · exact absurd (below n (List.mem_range'_1.mp inRange).1 less) hidden'
        · exact equal
        · exact absurd (below' first (List.mem_range'_1.mp number).1 more) hidden
      exact new ⟨found, there, entry, same⟩
    rintro unmasked ⟨found, there, entry, same⟩
    refine hidden (unmasked.reached first number below found there entry ?_ same)
    intro other member here
    cases plain : other.long with
    | true => rfl
    | false =>
      exact absurd (shows_own member (listing_plain member plain)
        (by rw [here]; exact same) (numbered83_text text number)) hidden

/-! ### The stored names after an addition -/

theorem entries_run {before run after new : List Slot}
    (vacant : ∀ slot ∈ run, Slot.vacant slot = true) :
    ((before ++ new ++ after).filter Slot.entry).Perm
      (new.filter Slot.entry ++ (before ++ run ++ after).filter Slot.entry) := by
  have nothing : run.filter Slot.entry = [] := by
    refine filter_eq_nil_iff.mpr (fun slot member => ?_)
    unfold Slot.entry
    rw [vacant slot member]
    exact Bool.false_ne_true
  rw [filter_append, filter_append, filter_append,
    filter_append, nothing, append_nil, ← append_assoc]
  exact (perm_append_comm).append_right _

theorem flatMap_update {slots : Nat → List Slot} {before after : List Nat} {cluster : Nat}
    (distinct : (before ++ cluster :: after).Nodup) (here : List Slot) :
    (before ++ cluster :: after).flatMap (update slots cluster here) =
      before.flatMap slots ++ here ++ after.flatMap slots := by
  obtain ⟨_, rest, apart⟩ := nodup_append.mp distinct
  have same : ∀ {part : List Nat}, cluster ∉ part →
      part.flatMap (update slots cluster here) = part.flatMap slots := by
    intro part outside
    refine flatMap_congr (fun other member => ?_)
    have new : other ≠ cluster := fun same => outside (same ▸ member)
    exact update_of_ne new ..
  rw [flatMap_append, flatMap_cons, update_self,
    same (fun member => apart cluster member cluster mem_cons_self rfl),
    same (nodup_cons.mp rest).1, append_assoc]

/-- The entries of the directory after an addition: those it had, and of the new
records those that are entries and got a place. -/
theorem Addition.entries {v v' : Volume} {dir : Nat} {cs' : List Nat} {new : List Slot} {ok : Bool}
    (addition : Addition v cs new cs' (ok, v')) (dirAt : DirAt v dir cs) (some' : 0 < new.length) :
    ∃ extra, extra.Sublist (new.filter Slot.entry) ∧ ((cs'.flatMap v'.slots).filter Slot.entry).Perm
        (extra ++ (cs.flatMap v.slots).filter Slot.entry) := by
  have distinct := dirAt.chain.linked.nodup
  cases addition with
  | @within _ after cluster start before split run table slots =>
    subst split
    obtain ⟨pre, old, post, records, rfl, length, _, vacant⟩ := findRun_spec some' run
    refine ⟨new.filter Slot.entry, List.Sublist.refl _, ?_⟩
    have whole : (before ++ cluster :: after).flatMap v.slots =
        (before.flatMap v.slots ++ pre) ++ old ++ (post ++ after.flatMap v.slots) := by
      rw [flatMap_append, flatMap_cons, records]
      simp only [append_assoc]
    have whole' : (before ++ cluster :: after).flatMap v'.slots =
        (before.flatMap v.slots ++ pre) ++ new ++ (post ++ after.flatMap v.slots) := by
      rw [slots, flatMap_update distinct, records, place_run length.symm]
      simp only [append_assoc]
    rw [whole, whole']
    exact entries_run vacant
  | @beyond _ last added before split least bound free table slots =>
    subst split
    have apart : added ∉ before ++ [last] := fun member => dirAt.chain.not_free member free
    have old : (before ++ [last]).flatMap v'.slots =
        before.flatMap v.slots ++ patched (v.slots last) := by
      rw [slots]
      have same : ∀ cluster ∈ before ++ [last], update
          (update v.slots last (patched (v.slots last))) added
            (place (List.replicate (slotsPerCluster v) Slot.zero) 0 new) cluster =
          update v.slots last (patched (v.slots last)) cluster := by
        intro cluster member
        have new : cluster ≠ added := fun same => apart (same ▸ member)
        exact update_of_ne new ..
      rw [flatMap_congr same, flatMap_update distinct, flatMap_nil, append_nil]
    have fresh : [added].flatMap v'.slots =
        place (List.replicate (slotsPerCluster v) Slot.zero) 0 new := by
      rw [flatMap_singleton, slots, update_self]
    refine ⟨(place (List.replicate (slotsPerCluster v) Slot.zero) 0 new).filter Slot.entry, ?_, ?_⟩
    · unfold place
      refine ((take_sublist _ _).filter Slot.entry).trans ?_
      rw [take_zero, nil_append, filter_append]
      have zeros : ((List.replicate (slotsPerCluster v) Slot.zero).drop
          (0 + new.length)).filter Slot.entry = [] := by
        refine filter_eq_nil_iff.mpr (fun slot member => ?_)
        rw [(mem_replicate.mp (mem_of_mem_drop member)).2]
        decide
      rw [zeros, append_nil]
    · rw [flatMap_append, old, fresh, filter_append, filter_append,
        patched_entries, flatMap_append, flatMap_singleton, filter_append]
      exact perm_append_comm
  | @full _ last before split _ _ table slots =>
    subst split
    refine ⟨[], nil_sublist _, ?_⟩
    rw [slots, flatMap_update distinct, flatMap_nil, append_nil,
      filter_append, patched_entries, flatMap_append, flatMap_singleton, filter_append, nil_append]

theorem newEntries_entries (name : Path) (count : Nat) (short : List Char) (first size attr : Nat) :
    ((newEntries name count short first size attr).filter Slot.entry).Sublist
      [⟨(short.headD ' ').toNat, short.drop 1, attr, first, size⟩] := by
  unfold newEntries
  rw [filter_append]
  have parts : ((List.range' 1 count).reverse.map fun seq =>
      buildLfnEntry name seq (seq == count)).filter Slot.entry = [] := by
    refine filter_eq_nil_iff.mpr (fun slot member => ?_)
    obtain ⟨_, _, rfl⟩ := mem_map.mp member
    unfold Slot.entry buildLfnEntry
    simp
  rw [parts, nil_append]
  exact filter_sublist

theorem storedNames_nodup {v : Volume} {dir : Nat} (dirAt : DirAt v dir cs)
    (reliable : DirReliable v) (distinct : (storedNames v cs).Nodup) (long : needsLfn name = true)
    (new : chosen83 (shown v cs) name ∉ storedNames v cs) (first size attr : Nat) {cs' : List Nat}
    (after : DirAt (dirAddEntry v dir name first size attr).2 dir cs') :
    (storedNames (dirAddEntry v dir name first size attr).2 cs').Nodup := by
  have kept : stored83 (shown v cs) name = some (chosen83 (shown v cs) name) := if_pos long
  obtain ⟨shape, coherent, _, addition⟩ := dirAddEntry_addition dirAt reliable
    name first size attr kept
  have some' : 0 < (newEntries name (lfnCount name) (chosen83 (shown v cs) name)
      first size attr).length := by
    rw [newEntries_length]
    exact Nat.succ_pos _
  obtain rfl := after.unique (addition.dirAt dirAt shape coherent some')
  obtain ⟨extra, among, same⟩ := addition.entries dirAt some'
  have among' := among.trans (newEntries_entries ..)
  -- the record of the short name holds the characters chosen
  have length : (chosen83 (shown v cs) name).length = 11 := numbered83_length ..
  have single : (extra.map Slot.short).Sublist [chosen83 (shown v cs) name] := by
    refine (among'.map Slot.short).trans ?_
    cases chosen : chosen83 (shown v cs) name with
    | nil =>
      rw [chosen] at length
      cases length
    | cons =>
      unfold Slot.short
      simp
  have names := (same.map Slot.short)
  rw [map_append] at names
  refine names.nodup_iff.mpr (nodup_append.mpr ⟨?_, distinct, ?_⟩)
  · exact single.nodup (nodup_singleton _)
  rintro a one b other rfl
  rw [mem_singleton.mp (single.subset one)] at other
  exact new other

/-- The short name of a new entry differs from those stored, and keeps them
different, exactly where no entry hides the name that is tried. -/
theorem short_names_unique {v : Volume} {dir : Nat} {cs : List Nat} (dirAt : DirAt v dir cs)
    (reliable : DirReliable v) (distinct : (storedNames v cs).Nodup) {name : Path}
    (text : '\x00' ∉ name) : StaysUnique v dir cs name ↔ NoneMasked v cs name := by
  obtain ⟨result, _⟩ := generateShortName_shown dirAt name
  unfold StaysUnique
  rw [result, ← chosen83_new text]
  refine ⟨And.left, fun new => ⟨new, ?_⟩⟩
  exact fun long first size attr cs' after =>
    storedNames_nodup dirAt reliable distinct long new first size attr after

/-! ### Two directories -/

/-- A volume whose root directory is cluster 2, with the records given. -/
def rootWith (slots : List Slot) : Volume :=
  { volumeOf 1 8 (fun cluster => if cluster = 2 then fat32Eoc else 0) with
    slots := fun cluster => if cluster = 2 then slots ++
        List.replicate (16 - slots.length) Slot.zero
      else List.replicate 16 Slot.zero }

theorem rootWith_dirAt {slots : List Slot} (room : slots.length ≤ 16) :
    DirAt (rootWith slots) 2 [2] where
  sound := {
    coherent := { (volumeOf_tidy 1 8
      (fun cluster => if cluster = 2 then fat32Eoc else 0)).coherent with }
    reliable := fun _ => rfl
    covered := (by decide : 8 + 2 ≤ 1 * entriesPerSector)
    numbered := (by decide : 8 + 2 ≤ fat32Bad) }
  chain := by
    refine ⟨?_, ?_⟩
    · intro i cluster here
      cases i with
      | zero =>
        cases here
        rfl
      | succ => cases here
    · intro cluster member
      rw [mem_singleton.mp member]
      exact (by decide : 2 ≤ 2 ∧ 2 < 8 + 2)
  first := rfl
  filled := by
    intro cluster member
    rw [mem_singleton.mp member]
    have count : slotsPerCluster (rootWith slots) = 16 := (by decide : 1 * 512 / 32 = 16)
    unfold rootWith at count ⊢
    rw [count]
    dsimp only
    rw [if_pos rfl, length_append, length_replicate]
    omega

/-- Entries with the short names given. -/
def filesOf (names : List String) : List Slot :=
  names.map fun name =>
    ⟨(name.toList.headD ' ').toNat, name.toList.drop 1, attrArchive, 0, 0⟩

/-- A second file with the same short stem gets the next number. -/
theorem short_names_unique_numbered :
    StaysUnique (rootWith (filesOf ["DESKTO~1   "])) 2 [2] "Desktop fonts".toList := by
  have reached : ∀ n ∈ List.range' 1 99, ∀ found ∈ records (rootWith (filesOf ["DESKTO~1   "])) [2],
      Slot.entry found.slot = true →
      Slot.short found.slot = numbered83 "Desktop fonts".toList n →
      Displayed (rootWith (filesOf ["DESKTO~1   "])) [2] "Desktop fonts".toList n := by
    decide +kernel
  have last : ∀ found ∈ records (rootWith (filesOf ["DESKTO~1   "])) [2],
      Slot.entry found.slot = true →
      Slot.short found.slot ≠ numbered83 "Desktop fonts".toList 99 := by
    decide +kernel
  exact (short_names_unique (rootWith_dirAt (by decide)) (fun _ => rfl) (by decide +kernel)
    (by decide)).mpr ⟨fun n number _ found there entry _ => reached n number found there entry,
      fun _ => last⟩

/-- The directory with the one file `Desktop files`. -/
def desktopFiles : Volume :=
  rootWith (newEntries "Desktop files".toList 1 "DESKTO~1   ".toList 0 0 attrArchive)

/-- The short name of `Desktop fonts` is the one of `Desktop files`. -/
theorem short_names_unique_fails :
    DirAt desktopFiles 2 [2] ∧ DirReliable desktopFiles ∧ (storedNames desktopFiles [2]).Nodup ∧
      ¬StaysUnique desktopFiles 2 [2] "Desktop fonts".toList := by
  refine ⟨rootWith_dirAt (by decide), fun _ => rfl, by decide +kernel, ?_⟩
  rintro ⟨new, _⟩
  exact new (by decide +kernel)

end MainDob.Fs.Fat
