/-
Purpose: What `dir_add_entry` does to the records of a directory. The new records take the place
  of a run of vacant ones in a cluster of its chain, or the chain gets a cluster more that begins
  with them; no other record changes, but that the marks of zero in the last cluster become marks
  of deleted records when it gets a successor.
Main exports: DirReliable, Addition, findRun_spec
-/
import MainDob.Proofs.DirListing

namespace MainDob.Fs.Fat

open Function (update)
open List Option Function

/-- The block writes to directories succeed. -/
def DirReliable (v : Volume) : Prop := ∀ n, v.outcome .dir n = true

theorem Shape.dirReliable {v v' : Volume} (shape : Shape v v')
    (reliable : DirReliable v) : DirReliable v' := by
  intro n
  rw [shape.outcome]
  exact reliable n

theorem Shape.slotsPerCluster {v v' : Volume} (shape : Shape v v') :
    slotsPerCluster v' = slotsPerCluster v := by
  unfold Fs.slotsPerCluster
  rw [shape.bytesPerCluster]

variable {cluster : Nat}

theorem writeSlots_spec {v : Volume} (coherent : Coherent v) (reliable : DirReliable v)
    (least : 2 ≤ cluster) (slots : List Slot) : Shape v (writeSlots v cluster slots).2 ∧
    Coherent (writeSlots v cluster slots).2 ∧ (writeSlots v cluster slots).2.table = v.table ∧
      (writeSlots v cluster slots).2.slots = update v.slots cluster slots := by
  unfold writeSlots diskWrite
  rw [if_neg (Nat.not_lt.mpr least)]
  dsimp only
  rw [if_pos (reliable _)]
  exact ⟨⟨rfl, rfl, rfl, rfl, rfl, rfl⟩, { coherent with }, rfl, rfl⟩

/-! ### Vacant runs -/

/-- The records end with one in use, if there are any. -/
def EndsUsed (slots : List Slot) : Prop :=
  ∀ slot, slots.getLast? = some slot → Slot.vacant slot = false

theorem findRun_from {total : Nat} : ∀ (rest pre run : List Slot)
    {runStart start : Nat}, EndsUsed pre →
    (∀ slot ∈ run, Slot.vacant slot = true) →
    (run.length ≠ 0 → runStart = pre.length) → run.length < total →
    findRun total rest (pre.length + run.length) runStart run.length = some start →
    ∃ before run' after, pre ++ run ++ rest = before ++ run' ++ after ∧ before.length = start ∧
      run'.length = total ∧ EndsUsed before ∧ ∀ slot ∈ run', Slot.vacant slot = true
  | [], _, _, _, _, _, _, _, _, found => by cases found
  | slot :: rest, pre, run, runStart, start, edge, vacant, starts, short, found => by
    unfold findRun at found
    by_cases here : Slot.vacant slot = true
    · rw [if_pos here] at found
      have place : (if run.length = 0 then pre.length + run.length else runStart) = pre.length := by
        split
        · next none => rw [none, add_zero]
        · next more => exact starts more
      rw [place] at found
      have vacant' : ∀ other ∈ run ++ [slot], Slot.vacant other = true := by
        intro other member
        rcases mem_append.mp member with old | new
        · exact vacant other old
        · rw [mem_singleton.mp new]
          exact here
      have grown : (run ++ [slot]).length = run.length + 1 := length_append
      have whole : pre ++ run ++ slot :: rest = pre ++ (run ++ [slot]) ++ rest := by simp
      split at found
      · next enough =>
          cases found
          exact ⟨pre, run ++ [slot], rest, whole, rfl, by omega, edge, vacant'⟩
      · next more =>
          rw [whole]
          refine findRun_from rest pre (run ++ [slot]) edge vacant' (fun _ => rfl) (by omega) ?_
          rw [grown]
          exact found
    · rw [if_neg here] at found
      have whole : pre ++ run ++ slot :: rest = (pre ++ run ++ [slot]) ++ [] ++ rest := by simp
      have edge' : EndsUsed (pre ++ run ++ [slot]) := by
        intro other last
        rw [List.getLast?_concat] at last
        rw [← Option.some.inj last]
        exact eq_false_of_ne_true here
      have none : ([] : List Slot).length ≠ 0 →
          runStart = (pre ++ run ++ [slot]).length := fun more => absurd rfl more
      have grown : (pre ++ run ++ [slot]).length +
          ([] : List Slot).length = pre.length + run.length + 1 := by
        simp only [length_append, length_cons, length_nil]
      rw [whole]
      refine findRun_from rest (pre ++ run ++ [slot]) [] edge' nofun none
        (Nat.lt_of_le_of_lt (Nat.zero_le _) short) ?_
      rw [grown]
      exact found

variable {slots : List Slot}

theorem findRun_spec {total start : Nat} (some' : 0 < total)
    (found : findRun total slots 0 0 0 = some start) :
    ∃ before run after, slots = before ++ run ++ after ∧ before.length = start ∧
      run.length = total ∧ EndsUsed before ∧ ∀ slot ∈ run, Slot.vacant slot = true :=
  findRun_from slots [] [] nofun nofun (fun more => absurd rfl more) some' found

variable {new : List Slot}

theorem place_run {before run after : List Slot} (same : new.length = run.length) :
    place (before ++ run ++ after) before.length new = before ++ new ++ after := by
  have behind : (before ++ run ++ after).drop (before.length + new.length) = after := by
    rw [same, ← length_append, drop_left]
  unfold place
  rw [behind, append_assoc, take_left, append_assoc]
  refine take_of_length_le ?_
  simp only [length_append]
  omega

/-! ### A cluster more -/

/-- A cluster of the directory has a run of vacant records of the length. -/
def HasRun (slots : Nat → List Slot) (cs : List Nat) (total : Nat) : Prop :=
  ∃ cluster ∈ cs, (findRun total (slots cluster) 0 0 0).isSome = true

/-- The table has a free cluster. -/
def HasFree (v : Volume) : Prop :=
  ∃ cluster, 2 ≤ cluster ∧ cluster < v.limit ∧ v.table cluster = fat32Free

theorem HasFree.congr {v v' : Volume} (table : v'.table = v.table) (limit : v'.limit = v.limit) :
    HasFree v' ↔ HasFree v := by
  unfold HasFree
  rw [table, limit]

theorem findFree_spec : ∀ (candidates : List Nat) {v : Volume}, Searchable v candidates →
    (findFree candidates v).1 = candidates.find?
        (fun cluster => decide (v.table cluster = fat32Free)) ∧ Seen v (findFree candidates v).2
  | [], _, search => ⟨rfl, Seen.refl search.coherent⟩
  | cluster :: rest, v, search => by
    obtain ⟨value, seen⟩ := fatRead_proper search.coherent search.reliable
      (search.proper cluster mem_cons_self)
    obtain ⟨result, seen'⟩ := findFree_spec rest (search.tail.of_shape seen.toShape seen.coherent)
    unfold findFree
    dsimp only
    rw [value, List.find?_cons]
    by_cases free : v.table cluster = fat32Free
    · rw [if_pos free, decide_eq_true free]
      exact ⟨rfl, seen⟩
    · rw [if_neg free, decide_eq_false free]
      rw [seen.table] at result
      exact ⟨result, seen.trans seen'⟩

theorem fatAllocCluster_spec {v : Volume} (sound : FatSound v)
    (reliable : DirReliable v) {prev : Nat} (inside : 2 ≤ prev → prev < v.limit) :
    Shape v (fatAllocCluster v prev).2 ∧ Coherent (fatAllocCluster v prev).2 ∧
      (((fatAllocCluster v prev).1 = 0 ∧ (fatAllocCluster v prev).2.slots = v.slots ∧
          (fatAllocCluster v prev).2.table = v.table ∧ ¬ HasFree v) ∨
        ∃ added, (fatAllocCluster v prev).1 = added ∧ 2 ≤ added ∧
          added < v.limit ∧ v.table added = fat32Free ∧
          (fatAllocCluster v prev).2.table = linkOne v.table prev added ∧
          (fatAllocCluster v prev).2.slots = update v.slots added
            (List.replicate (slotsPerCluster v) Slot.zero)) := by
  obtain ⟨_, members⟩ := searchOrder_spec v
  obtain ⟨result, seen⟩ := findFree_spec (searchOrder v)
    (sound.searchable fun cluster => (members cluster).mp)
  unfold fatAllocCluster
  cases search : findFree (searchOrder v) v with
  | mk chosen u =>
    rw [search] at result seen
    cases chosen with
    | none =>
      refine ⟨seen.toShape, seen.coherent, Or.inl ⟨rfl, seen.slots, seen.table, ?_⟩⟩
      rintro ⟨cluster, least, bound, empty⟩
      have none := List.find?_eq_none.mp result.symm cluster ((members cluster).mpr ⟨least, bound⟩)
      exact absurd (decide_eq_true empty) none
    | some added =>
      have free : v.table added = fat32Free := by
        have holds := List.find?_some result.symm
        exact of_decide_eq_true holds
      obtain ⟨least, bound⟩ := (members added).mp (mem_of_find?_eq_some result.symm)
      obtain ⟨linked, table⟩ := linkCluster_spec seen.coherent (sound.of_seen seen).reliable
        ((seen.toShape.covers added).mpr (sound.covers bound))
        (lt_of_lt_of_le bound sound.numbered) (fun least =>
          (seen.toShape.covers prev).mpr (sound.covers (inside least)))
      have shape := seen.toShape.trans linked.toShape
      unfold diskWrite
      dsimp only
      rw [if_pos (Shape.dirReliable shape reliable _)]
      refine ⟨{ shape with }, { linked.coherent with },
        Or.inr ⟨added, rfl, least, bound, free, ?_, ?_⟩⟩
      · rw [← seen.table]
        exact table
      have same : slotsPerCluster (linkCluster u prev added) =
          slotsPerCluster v := Shape.slotsPerCluster shape
      rw [linked.slots, seen.slots]
      exact congrArg (fun count => update v.slots added (List.replicate count Slot.zero)) same

/-- What is done to a directory with the clusters `cs`, and which clusters it has
then: the records get into a vacant run of one of them, or into a cluster more,
or, where there is room for neither, nowhere. -/
inductive Addition (v : Volume) (cs : List Nat) (new : List Slot) :
    List Nat → Bool × Volume → Prop where
  | within {v' : Volume} {after : List Nat} {cluster start : Nat}
      (before : List Nat) (split : cs = before ++ cluster :: after)
      (run : findRun new.length (v.slots cluster) 0 0 0 = some start)
      (table : v'.table = v.table)
      (slots : v'.slots = update v.slots cluster (place (v.slots cluster) start new)) :
      Addition v cs new cs (true, v')
  | beyond {v' : Volume} {last added : Nat} (before : List Nat)
      (split : cs = before ++ [last])
      (least : 2 ≤ added) (bound : added < v.limit)
      (free : v.table added = fat32Free)
      (table : v'.table = linkOne v.table last added)
      (slots : v'.slots = update (update v.slots last (patched (v.slots last))) added
        (place (List.replicate (slotsPerCluster v) Slot.zero) 0 new)) :
      Addition v cs new (cs ++ [added]) (true, v')
  | full {v' : Volume} {last : Nat} (before : List Nat)
      (split : cs = before ++ [last])
      (run : ¬ HasRun v.slots cs new.length) (free : ¬ HasFree v)
      (table : v'.table = v.table)
      (slots : v'.slots = update v.slots last (patched (v.slots last))) :
      Addition v cs new cs (false, v')

theorem Addition.cons {v : Volume} {cs cs' : List Nat} {result : Bool × Volume}
    (addition : Addition v cs new cs' result) {cluster : Nat}
    (none : findRun new.length (v.slots cluster) 0 0 0 = none) :
    Addition v (cluster :: cs) new (cluster :: cs') result := by
  cases addition with
  | within _ split run table slots =>
    exact .within (cluster :: _) (by rw [split]; rfl) run table slots
  | beyond _ split least bound free table slots =>
    exact .beyond (cluster :: _) (by rw [split]; rfl) least bound free table slots
  | full _ split run free table slots =>
    refine .full (cluster :: _) (by rw [split]; rfl) ?_ free table slots
    rintro ⟨other, member, found⟩
    rcases mem_cons.mp member with rfl | member
    · rw [none] at found
      cases found
    · exact run ⟨other, member, found⟩

theorem Addition.of_seen {v u : Volume} {cs cs' : List Nat} {result : Bool × Volume}
    (seen : Seen v u) (addition : Addition u cs new cs' result) : Addition v cs new cs' result := by
  cases addition with
  | within before split run table slots =>
    rw [seen.slots] at run slots
    exact .within before split run (table.trans seen.table) slots
  | beyond before split least bound free table slots =>
    rw [seen.slots, Shape.slotsPerCluster seen.toShape] at slots
    rw [seen.limit] at bound
    rw [seen.table] at free table
    exact .beyond before split least bound free table slots
  | full before split run free table slots =>
    rw [seen.slots] at slots run
    rw [HasFree.congr seen.table seen.limit] at free
    exact .full before split run free (table.trans seen.table) slots

theorem patched_eq_self (none : ¬slots.any (·.mark == 0) = true) : patched slots = slots := by
  unfold patched
  have same : ∀ slot ∈ slots, (if slot.mark = 0 then
      { slot with mark := deletedMark } else slot) = slot := by
    intro slot member
    refine if_neg (fun zero => none ?_)
    exact any_eq_true.mpr ⟨slot, member, beq_iff_eq.mpr zero⟩
  rw [map_congr_left same, List.map_id']

theorem extendDir_spec {v : Volume} (sound : FatSound v)
    (reliable : DirReliable v) {last : Nat} (least : 2 ≤ last) (bound : last < v.limit)
    (used : v.table last ≠ fat32Free) {new : List Slot}
    (none : findRun new.length (v.slots last) 0 0 0 = none) : Shape v (extendDir v last new).2 ∧
    Coherent (extendDir v last new).2 ∧ ∃ cs, Addition v [last] new cs (extendDir v last new) := by
  -- the marks of zero are rewritten where there are any
  obtain ⟨u, written, shape, coherent, table, slots⟩ : ∃ u,
      (if (v.slots last).any (·.mark == 0) then
        (writeSlots v last (patched (v.slots last))).2 else v) = u ∧
      Shape v u ∧ Coherent u ∧ u.table = v.table ∧
      u.slots = update v.slots last (patched (v.slots last)) := by
    by_cases zeros : (v.slots last).any (·.mark == 0) = true
    · rw [if_pos zeros]
      exact ⟨_, rfl, writeSlots_spec sound.coherent reliable least _⟩
    · rw [if_neg zeros, patched_eq_self zeros, update_eq_self]
      exact ⟨v, rfl, Shape.refl v, sound.coherent, rfl, rfl⟩
  have sound' := sound.of_shape shape coherent
  have inside : 2 ≤ last → last < u.limit := fun _ => by rw [shape.limit]; exact bound
  obtain ⟨shape', coherent', found⟩ := fatAllocCluster_spec sound'
    (Shape.dirReliable shape reliable) inside
  have limit := shape.limit
  have count := Shape.slotsPerCluster shape
  unfold extendDir
  dsimp only
  rw [written]
  cases allocated : fatAllocCluster u last with
  | mk added w =>
    rw [allocated] at shape' coherent' found
    rcases found with ⟨zero, same, same', full⟩ | ⟨_, rfl, least', bound', free, linked, zeroed⟩
    · rw [if_pos zero]
      refine ⟨shape.trans shape', coherent', _, .full [] rfl ?_
        ((HasFree.congr table limit).not.mp full) (same'.trans table) (same.trans slots)⟩
      rintro ⟨_, member, found⟩
      rw [mem_singleton.mp member, none] at found
      cases found
    have apart : added ≠ last := by
      rintro rfl
      rw [table] at free
      exact used free
    rw [if_neg (by omega)]
    have held : w.slots added = List.replicate (slotsPerCluster v) Slot.zero := by
      rw [zeroed, update_self, count]
    obtain ⟨shape'', coherent'', table'', slots''⟩ := writeSlots_spec coherent'
      (Shape.dirReliable (shape.trans shape') reliable) least' (place (w.slots added) 0 new)
    refine ⟨(shape.trans shape').trans shape'', coherent'', _, .beyond [] rfl least' ?_ ?_ ?_ ?_⟩
    · rw [← limit]
      exact bound'
    · rw [← table]
      exact free
    · rw [table'', linked, table]
    · rw [slots'', held, zeroed, slots, update_idem]

theorem addLoop_spec (new : List Slot) : ∀ (cs : List Nat) {fuel cluster : Nat}
    {v : Volume}, FatSound v → DirReliable v →
    Chain v.table v.limit (cluster :: cs) → cs.length < fuel →
    Shape v (addLoop new fuel v cluster).2 ∧ Coherent (addLoop new fuel v cluster).2 ∧
      ∃ cs', Addition v (cluster :: cs) new cs' (addLoop new fuel v cluster)
  | _, 0, _, _, _, _, _, enough => absurd enough (Nat.not_lt_zero _)
  | cs, fuel + 1, cluster, v, sound, reliable, chain, enough => by
    obtain ⟨value, seen, proper⟩ := chain.head_read sound
    obtain ⟨least, bound⟩ := chain.valid cluster mem_cons_self
    have used := chain.not_free mem_cons_self
    have reliable' := Shape.dirReliable seen.toShape reliable
    unfold addLoop
    rw [if_pos proper]
    cases run : findRun new.length (v.slots cluster) 0 0 0 with
    | some start =>
      obtain ⟨shape, coherent, table, slots⟩ := writeSlots_spec
        sound.coherent reliable least (place (v.slots cluster) start new)
      exact ⟨shape, coherent, _, .within [] rfl run table slots⟩
    | none =>
      dsimp only
      rw [value]
      cases cs with
      | nil =>
        rw [if_pos chain.last]
        obtain ⟨shape, coherent, _, addition⟩ := extendDir_spec (sound.of_seen seen) reliable' least
          (by rw [seen.limit]; exact bound) (by rw [seen.table]; exact used)
          (by rw [seen.slots]; exact run)
        exact ⟨seen.toShape.trans shape, coherent, _, addition.of_seen seen⟩
      | cons next rest =>
        obtain ⟨follows, more, tail⟩ := chain.next
        rw [more, if_neg Bool.false_ne_true, follows]
        obtain ⟨shape, coherent, _, addition⟩ := addLoop_spec new rest
          (sound.of_seen seen) reliable' (tail.of_seen seen) (Nat.lt_of_succ_lt_succ enough)
        exact ⟨seen.toShape.trans shape, coherent, _, (addition.of_seen seen).cons run⟩

/-! ### Short names and the whole addition -/

/-- Some entry is shown under the name. -/
def shows (entries : List Shown) (name : Path) : Bool :=
  entries.any fun entry => nameEqCi name entry.name

theorem firstNamed_isNone (name : Path) (entries : List Shown) :
    (firstNamed name entries).isNone = !shows entries name := by
  unfold firstNamed shows
  rw [isNone_map, Bool.eq_iff_iff, isNone_iff_eq_none,
    List.find?_eq_none, Bool.not_eq_true', List.any_eq_false]

/-- The first number whose short name no entry is shown under. -/
def chosenNumber (entries : List Shown) (longName : Path) : Option Nat :=
  (List.range' 1 99).find? fun n =>
    !shows entries (joined83 (numbered83 longName n))

/-- What `generate_short_name` chooses. -/
def chosen83 (entries : List Shown) (longName : Path) : List Char :=
  numbered83 longName ((chosenNumber entries longName).getD 99)

theorem shortNameLoop_shown (longName : Path) {dir : Nat} {cs : List Nat} :
    ∀ (numbers : List Nat) {v : Volume} (last : List Char), DirAt v dir cs →
      (shortNameLoop longName dir numbers v last).1 = (((numbers.find? fun n =>
              !shows (shown v cs) (joined83 (numbered83 longName n))).or
            numbers.getLast?).map (numbered83 longName)).getD last ∧
        Seen v (shortNameLoop longName dir numbers v last).2
  | [], _, _, dirAt => ⟨rfl, Seen.refl dirAt.sound.coherent⟩
  | n :: rest, v, last, dirAt => by
    obtain ⟨result, seen⟩ := dirFindEntry_shown dirAt (joined83 (numbered83 longName n))
    have free := firstNamed_isNone (joined83 (numbered83 longName n)) (shown v cs)
    rw [← result] at free
    unfold shortNameLoop
    dsimp only
    rw [List.find?_cons, ← free]
    cases lookup : dirFindEntry v dir (joined83 (numbered83 longName n)) with
    | mk entry =>
      rw [lookup] at seen
      cases entry with
      | none => exact ⟨rfl, seen⟩
      | some =>
        obtain ⟨result', seen'⟩ := shortNameLoop_shown longName rest
          (numbered83 longName n) (dirAt.of_seen seen)
        rw [shown_congr seen.slots] at result'
        refine ⟨result'.trans ?_, seen.trans seen'⟩
        rw [List.getLast?_cons]
        dsimp only [Option.isNone]
        cases List.find? _ rest with
        | some => simp only [some_or, map_some, getD_some]
        | none =>
          cases rest.getLast? <;>
            simp only [none_or, map_some, map_none, getD_some, getD_none]

theorem generateShortName_shown {v : Volume} {dir : Nat} {cs : List Nat}
    (dirAt : DirAt v dir cs) (longName : Path) : (generateShortName v longName dir).1 = chosen83
    (shown v cs) longName ∧ Seen v (generateShortName v longName dir).2 := by
  obtain ⟨result, seen⟩ := shortNameLoop_shown longName (List.range' 1 99)
    (List.replicate 11 ' ') dirAt
  refine ⟨result.trans ?_, seen⟩
  unfold chosen83 chosenNumber
  cases List.find? _ (List.range' 1 99) <;> rfl

/-- The parts of a long name that a name is stored with. -/
def lfnCount (name : Path) : Nat :=
  if needsLfn name then (name.length + 12) / 13 else 0

/-- The short name that a name is stored with. -/
def stored83 (entries : List Shown) (name : Path) : Option (List Char) :=
  if needsLfn name then some (chosen83 entries name) else encode83Name name

section

variable {v : Volume} {dir : Nat} {cs : List Nat}

theorem dirAddEntry_looped (dirAt : DirAt v dir cs) {name : Path} (first size attr : Nat)
    {short : List Char} (kept : stored83 (shown v cs) name = some short) :
    ∃ u, Seen v u ∧ dirAddEntry v dir name first size attr =
      addLoop (newEntries name (lfnCount name) short first size attr) (u.totalClusters + 3) u dir := by
  unfold dirAddEntry lfnCount
  unfold stored83 at kept
  by_cases long : needsLfn name = true
  · obtain ⟨result, seen⟩ := generateShortName_shown dirAt name
    rw [if_pos long] at kept ⊢
    rw [if_pos long]
    dsimp only
    rw [result, Option.some.inj kept]
    exact ⟨_, seen, rfl⟩
  · rw [if_neg long] at kept ⊢
    rw [if_neg long, kept]
    exact ⟨v, .refl dirAt.sound.coherent, rfl⟩

theorem dirAddEntry_addition (dirAt : DirAt v dir cs) (reliable : DirReliable v) (name : Path)
    (first size attr : Nat) {short : List Char} (kept : stored83 (shown v cs) name = some short) :
    Shape v (dirAddEntry v dir name first size attr).2 ∧
      Coherent (dirAddEntry v dir name first size attr).2 ∧ ∃ cs', Addition v cs (newEntries name
      (lfnCount name) short first size attr) cs' (dirAddEntry v dir name first size attr) := by
  obtain ⟨u, seen, looped⟩ := dirAddEntry_looped dirAt first size attr kept
  have dirAt' := dirAt.of_seen seen
  obtain ⟨rest, rfl, enough⟩ := dirAt'.head
  obtain ⟨shape, coherent, _, addition⟩ := addLoop_spec _ rest
    dirAt'.sound (Shape.dirReliable seen.toShape reliable) dirAt'.chain enough
  rw [looped]
  exact ⟨seen.toShape.trans shape, coherent, _, addition.of_seen seen⟩

theorem dirAddEntry_refused {name : Path} (none : stored83 (shown v cs) name = none)
    (first size attr : Nat) : dirAddEntry v dir name first size attr = (false, v) := by
  unfold stored83 at none
  unfold dirAddEntry
  split at none
  · cases none
  · next plain => rw [if_neg plain, none]

end

/-! ### The directory afterwards -/

theorem place_length {start : Nat} (within : start ≤ slots.length)
    (new : List Slot) : (place slots start new).length = slots.length := by
  unfold place
  rw [length_take, length_append, length_append, length_take, length_drop]
  omega

theorem patched_length (slots : List Slot) : (patched slots).length = slots.length := length_map ..

theorem update_lengths {v : Volume} (same : slots.length = (v.slots cluster).length) (other : Nat) :
    (update v.slots cluster slots other).length = (v.slots other).length := by
  by_cases here : other = cluster
  · rw [here, update_self, same]
  · rw [update_of_ne here]

namespace DirAt

variable {v v' : Volume} {dir : Nat} {cs : List Nat}

theorem kept (dirAt : DirAt v dir cs) (shape : Shape v v')
    (coherent : Coherent v') (table : v'.table = v.table)
    (lengths : ∀ cluster, (v'.slots cluster).length = (v.slots cluster).length) :
    DirAt v' dir cs where
  sound := dirAt.sound.of_shape shape coherent
  chain := by
    rw [table, shape.limit]
    exact dirAt.chain
  first := dirAt.first
  filled := by
    intro cluster member
    rw [lengths, Shape.slotsPerCluster shape]
    exact dirAt.filled cluster member

theorem grown {before : List Nat} {last added : Nat} (dirAt : DirAt v dir (before ++ [last]))
    (shape : Shape v v') (coherent : Coherent v') (least : 2 ≤ added) (bound : added < v.limit)
    (free : v.table added = fat32Free) (table : v'.table = linkOne v.table last added)
    (lengths : ∀ cluster ∈ before ++ [last], (v'.slots cluster).length = (v.slots cluster).length)
    (new : (v'.slots added).length = slotsPerCluster v) :
    DirAt v' dir (before ++ [last] ++ [added]) where
  sound := dirAt.sound.of_shape shape coherent
  chain := by
    have apart : added ∉ before ++ [last] := fun member => dirAt.chain.not_free member free
    rw [table, shape.limit]
    refine dirAt.chain.extend (Or.inl List.getLast?_concat) (nodup_singleton added) ?_ ?_
    · intro cluster member
      rw [mem_singleton.mp member]
      exact apart
    · intro cluster member
      rw [mem_singleton.mp member]
      exact ⟨least, bound, (dirAt.sound.cluster_value bound).2.1⟩
  first := by
    rw [List.head?_append, dirAt.first]
    rfl
  filled := by
    intro cluster member
    rw [Shape.slotsPerCluster shape]
    rcases mem_append.mp member with old | here
    · rw [lengths cluster old]
      exact dirAt.filled cluster old
    · rw [mem_singleton.mp here]
      exact new

end DirAt

theorem place_lengths {v : Volume} {start : Nat} (some' : 0 < new.length) (run : findRun new.length
    (v.slots cluster) 0 0 0 = some start) (other : Nat) : (update v.slots cluster
    (place (v.slots cluster) start new) other).length = (v.slots other).length := by
  obtain ⟨before, run', after, split, length, _⟩ := findRun_spec some' run
  refine update_lengths (place_length ?_ new) other
  rw [split, ← length]
  simp only [length_append]
  omega

theorem newEntries_length (name : Path) (count : Nat) (short : List Char) (first size attr : Nat) :
    (newEntries name count short first size attr).length = count + 1 := by
  unfold newEntries
  rw [length_append, length_map, length_reverse, length_range']
  rfl

theorem Addition.dirAt {v v' : Volume} {dir : Nat} {cs cs' : List Nat} {ok : Bool}
    (addition : Addition v cs new cs' (ok, v')) (dirAt : DirAt v dir cs) (shape : Shape v v')
    (coherent : Coherent v') (some' : 0 < new.length) : DirAt v' dir cs' := by
  cases addition with
  | within _ _ run table slots =>
    refine dirAt.kept shape coherent table (fun other => ?_)
    rw [slots]
    exact place_lengths some' run other
  | beyond _ split least bound free table slots =>
    subst split
    refine dirAt.grown shape coherent least bound free table ?_ ?_
    · intro other member
      have apart : other ≠ _ := fun same => dirAt.chain.not_free member (same ▸ free)
      rw [slots, update_of_ne apart]
      exact update_lengths (patched_length _) other
    · rw [slots, update_self, place_length (Nat.zero_le _), length_replicate]
  | full _ _ _ _ table slots =>
    refine dirAt.kept shape coherent table (fun other => ?_)
    rw [slots]
    exact update_lengths (patched_length _) other

end MainDob.Fs.Fat
