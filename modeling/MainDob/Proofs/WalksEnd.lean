/-
Purpose: When the walks over cluster chains end. The release of a chain always does, and frees
  what can be reached; the others keep no record of where they have been, and end where a chain
  meets no cluster twice or something on the way stops them.
Trusted boundary: the block writes to the FAT succeed.
Main exports: Goes, Halts, walks_end
-/
import MainDob.Fs.Walks
import MainDob.Proofs.ChainWalks
import Mathlib.Data.Finset.Card

namespace MainDob.Fs.Fat

open Function (update update_of_ne update_self update_eq_self)
open Lib.Loops

/-! ### Directories -/

/-- The loop of `dir_iterate` goes on with the cluster. -/
def Goes (cluster : Nat) : Prop := 2 ≤ cluster ∧ fatIsEoc cluster = false

instance (cluster : Nat) : Decidable (Goes cluster) :=
  inferInstanceAs (Decidable (_ ∧ _))

section Directory

variable (v : Volume) (readable : Nat → Bool) (stop : Slot → Path → Bool)

/-- What the scan of a cluster says, after the clusters before it have left a
long name. -/
def scanAt (cluster : Nat) (lfn : LfnState) : Scan :=
  scanSlots stop (fatIsEoc (v.table cluster)) cluster (v.slots cluster) 0 lfn

/-- The long name at the `k`-th cluster of a directory, where nothing has
stopped the scan before. -/
def lfnAt (dir : Nat) : Nat → Option LfnState
  | 0 => some LfnState.start
  | k + 1 =>
    match lfnAt dir k with
    | none => none
    | some lfn =>
      if Goes (v.table^[k] dir) ∧ readable (v.table^[k] dir) = true then
        match scanAt v stop (v.table^[k] dir) lfn with
        | .more lfn => some lfn
        | _ => none
      else none

/-- A cluster that cannot be read, or an entry the callback stops at, comes on
the way. -/
def Halts (dir : Nat) : Prop :=
  ∃ k lfn, lfnAt v readable stop dir k = some lfn ∧ Goes (v.table^[k] dir) ∧ (readable
    (v.table^[k] dir) = false ∨ ∃ entry, scanAt v stop (v.table^[k] dir) lfn = .found entry)

/-- The callback stops at the entry. -/
def StopsAt (dir : Nat) (entry : Found) : Prop :=
  ∃ k lfn, lfnAt v readable stop dir k = some lfn ∧ Goes (v.table^[k] dir) ∧
    readable (v.table^[k] dir) = true ∧ scanAt v stop (v.table^[k] dir) lfn = .found entry

/-- The chain of the directory meets no cluster twice, or something on the way
stops the scan. -/
def DirSound (dir : Nat) : Prop :=
  Apart v.table Goes dir ∨ Halts v readable stop dir

/-- No cluster on the way lies in the gap. -/
def DirClear (dir : Nat) : Prop :=
  ∀ k, (∀ j ≤ k, Goes (v.table^[j] dir)) → ¬ v.Gap (v.table^[k] dir)

end Directory

theorem goes_finite : Set.Finite {cluster | Goes cluster} := by
  refine Set.Finite.subset (Set.finite_lt_nat fat32EocMin) fun cluster goes => ?_
  have below := goes.2
  exact Nat.lt_of_not_le (of_decide_eq_false below)

variable {cluster : Nat}

theorem scanSlots_ended {stop : Slot → Path → Bool} {isLast : Bool} :
    ∀ {slots : List Slot} {index : Nat} {lfn : LfnState},
    scanSlots stop isLast cluster slots index lfn = .ended → isLast = true := by
  intro slots
  induction slots with
  | nil =>
    intro index lfn ended
    cases ended
  | cons slot _ ih =>
    intro index lfn ended
    unfold scanSlots at ended
    dsimp only at ended
    split at ended
    · split at ended
      · assumption
      · exact ih ended
    split at ended
    · exact ih ended
    split at ended
    · exact ih ended
    split at ended
    · exact ih ended
    generalize (if lfn.hasLfn = true then cString lfn.buf else decode83Name slot) = name at ended
    split at ended
    · cases ended
    · exact ih ended

variable {v' : Volume}

section Iterate

variable {v : Volume} {readable : Nat → Bool} {stop : Slot → Path → Bool} {dir : Nat}

theorem iterStep_at (readable : Nat → Bool) (stop : Slot → Path → Bool)
    (tidy : Tidy v) {v' : Volume} (seen : Seen v v')
    {cluster : Nat} (proper : Goes cluster → ¬ v.Gap cluster) (lfn : LfnState) :
    iterStep readable stop ⟨v', cluster, lfn⟩ = (if Goes cluster then
        if readable cluster = false then .inr (none, v')
        else
          match scanAt v stop cluster lfn with
          | .found entry => .inr (some entry, (fatRead v' cluster).2)
          | .ended => .inr (none, (fatRead v' cluster).2)
          | .more lfn => .inl ⟨(fatRead v' cluster).2, v.table cluster, lfn⟩
      else .inr (none, v')) ∧
      (Goes cluster → Seen v (fatRead v' cluster).2) := by
  unfold iterStep
  dsimp only
  change (if Goes cluster then _ else _) = (if Goes cluster then _ else _) ∧ _
  by_cases goes : Goes cluster
  · rw [if_pos goes, if_pos goes]
    have tidy' := tidy.of_seen seen
    have proper' : ¬ v'.Gap cluster := fun gap => proper goes ((seen.toShape.gap cluster).mp gap)
    obtain ⟨value, seen'⟩ := fatRead_proper tidy'.coherent tidy'.reliable proper'
    have both := seen.trans seen'
    refine ⟨?_, fun _ => both⟩
    rw [value, seen.table, both.slots]
    rfl
  · rw [if_neg goes, if_neg goes]
    exact ⟨rfl, fun impossible => absurd impossible goes⟩

theorem iter_after (readable : Nat → Bool) (stop : Slot → Path → Bool)
    (tidy : Tidy v) (clear : DirClear v dir) : ∀ k,
    match lfnAt v readable stop dir k with
    | none => after (iterStep readable stop) k ⟨v, dir, LfnState.start⟩ = none
    | some lfn => (∀ j < k, Goes (v.table^[j] dir)) ∧ ∃ v',
        after (iterStep readable stop) k ⟨v, dir, LfnState.start⟩ =
          some ⟨v', v.table^[k] dir, lfn⟩ ∧ Seen v v' := by
  intro k
  induction k with
  | zero =>
    exact ⟨fun j impossible => absurd impossible (Nat.not_lt_zero j), v, rfl,
      Seen.refl tidy.coherent⟩
  | succ k ih =>
    rw [after_next, lfnAt]
    cases here : lfnAt v readable stop dir k with
    | none =>
      rw [here] at ih
      rw [ih]
    | some lfn =>
      rw [here] at ih
      obtain ⟨before, _, arrives, seen⟩ := ih
      have proper : Goes (v.table^[k] dir) → ¬ v.Gap (v.table^[k] dir) := by
        intro goes
        refine clear k fun j upTo => ?_
        rcases Nat.lt_or_eq_of_le upTo with less | rfl
        · exact before j less
        · exact goes
      obtain ⟨round, seen'⟩ := iterStep_at readable stop tidy seen proper lfn
      rw [arrives]
      dsimp only
      rw [round]
      by_cases goes : Goes (v.table^[k] dir)
      · cases read : readable (v.table^[k] dir) with
        | false => simp only [goes, if_true, Bool.false_eq_true, and_false, if_false]
        | true =>
          simp only [goes, if_true, Bool.true_eq_false, and_self, if_false]
          cases scan : scanAt v stop (v.table^[k] dir) lfn with
          | found | ended => rfl
          | more =>
            refine ⟨?_, _, ?_, seen' goes⟩
            · intro j less
              rcases Nat.lt_or_eq_of_le (Nat.le_of_lt_succ less) with earlier | rfl
              · exact before j earlier
              · exact goes
            · rw [Function.iterate_succ_apply']
      · simp only [goes, false_and, if_false]

theorem iter_ends (tidy : Tidy v) (clear : DirClear v dir) : Ends (iterStep readable stop)
    ⟨v, dir, LfnState.start⟩ ↔ ∃ k, lfnAt v readable stop dir k = none := by
  rw [ends_iff]
  refine exists_congr fun k => ?_
  have here := iter_after readable stop tidy clear k
  cases lfn : lfnAt v readable stop dir k with
  | none =>
    rw [lfn] at here
    simp only [here]
  | some =>
    rw [lfn] at here
    obtain ⟨_, _, arrives, _⟩ := here
    simp only [arrives, reduceCtorEq]

theorem lfnAt_none {k : Nat} (missing : lfnAt v readable stop dir k = none) :
    Halts v readable stop dir ∨ ∃ j, ¬ Goes (v.table^[j] dir) := by
  induction k with
  | zero => cases missing
  | succ k ih =>
    cases here : lfnAt v readable stop dir k with
    | none => exact ih here
    | some lfn =>
      rw [lfnAt, here] at missing
      dsimp only at missing
      by_cases goes : Goes (v.table^[k] dir)
      · cases read : readable (v.table^[k] dir) with
        | false => exact Or.inl ⟨k, lfn, here, goes, Or.inl read⟩
        | true =>
          rw [if_pos ⟨goes, read⟩] at missing
          cases scan : scanAt v stop (v.table^[k] dir) lfn with
          | found entry => exact Or.inl ⟨k, lfn, here, goes, Or.inr ⟨entry, scan⟩⟩
          | more =>
            rw [scan] at missing
            cases missing
          | ended =>
            have last := scanSlots_ended scan
            refine Or.inr ⟨k + 1, fun more => ?_⟩
            rw [Function.iterate_succ_apply'] at more
            exact absurd (last.symm.trans more.2) Bool.noConfusion
      · exact Or.inr ⟨k, goes⟩

theorem iterate_ends (readable : Nat → Bool) (stop : Slot → Path → Bool)
    (tidy : Tidy v) (clear : DirClear v dir) :
    Ends (iterStep readable stop) ⟨v, dir, LfnState.start⟩ ↔ DirSound v readable stop dir := by
  rw [iter_ends tidy clear]
  unfold DirSound
  rw [apart_iff goes_finite]
  constructor
  · rintro ⟨_, missing⟩
    exact (lfnAt_none missing).symm
  rintro (⟨k, stops⟩ | ⟨k, lfn, here, goes, halts⟩)
  · refine ⟨k + 1, ?_⟩
    rw [lfnAt]
    cases lfnAt v readable stop dir k with
    | none => rfl
    | some => exact if_neg fun both => stops both.1
  · refine ⟨k + 1, ?_⟩
    rw [lfnAt, here]
    dsimp only
    rcases halts with unread | ⟨entry, scan⟩
    · rw [if_neg (by simp [unread])]
    split
    · rw [scan]
    · rfl

/-- What `dir_iterate` returns: an entry the callback stops at, if there is
one. -/
theorem iterate_returns (tidy : Tidy v) (clear : DirClear v dir) {result : Option Found × Volume}
    (returns : Returns (iterStep readable stop) ⟨v, dir, LfnState.start⟩ result) :
    Seen v result.2 ∧ ∀ entry, result.1 = some entry ↔ StopsAt v readable stop dir entry := by
  have arrives : ∀ {k : Nat} {t : IterState}, after (iterStep readable stop) k ⟨v,
      dir, LfnState.start⟩ = some t → ∃ lfn v', lfnAt v readable stop dir k = some lfn ∧ Seen v v' ∧
        t = ⟨v', v.table^[k] dir, lfn⟩ ∧ (Goes (v.table^[k] dir) → ¬ v.Gap (v.table^[k] dir)) := by
    intro k t comes
    have here := iter_after readable stop tidy clear k
    cases lfn : lfnAt v readable stop dir k with
    | none =>
      rw [lfn] at here
      rw [comes] at here
      cases here
    | some lfn' =>
      rw [lfn] at here
      obtain ⟨before, v', there, seen⟩ := here
      refine ⟨lfn', v', rfl, seen, Option.some.inj (comes.symm.trans there), ?_⟩
      intro goes
      refine clear k fun j upTo => ?_
      rcases Nat.lt_or_eq_of_le upTo with less | rfl
      · exact before j less
      · exact goes
  have stopped : ∀ {entry : Found}, StopsAt v readable stop dir entry → result.1 = some entry := by
    rintro entry ⟨k, lfn, here, goes, read, scan⟩
    have there := iter_after readable stop tidy clear k
    rw [here] at there
    obtain ⟨_, v', comes, seen⟩ := there
    obtain ⟨_, _, _, _, _, proper⟩ := arrives comes
    obtain ⟨round, _⟩ := iterStep_at readable stop tidy seen proper lfn
    rw [if_pos goes, if_neg (by rw [read]; exact Bool.noConfusion), scan] at round
    have also : Returns (iterStep readable stop) ⟨v, dir, LfnState.start⟩
        (some entry, (fatRead v' (v.table^[k] dir)).2) :=
      returns_iff.mpr ⟨k, _, comes, round⟩
    rw [returns.unique also]
  obtain ⟨k, t, comes, stops⟩ := returns_iff.mp returns
  obtain ⟨lfn, v', here, seen, rfl, proper⟩ := arrives comes
  obtain ⟨round, seen'⟩ := iterStep_at readable stop tidy seen proper lfn
  rw [round] at stops
  by_cases goes : Goes (v.table^[k] dir)
  · rw [if_pos goes] at stops
    cases read : readable (v.table^[k] dir) with
    | false =>
      rw [if_pos read] at stops
      cases stops
      refine ⟨seen, fun entry => ⟨?_, fun found => nomatch stopped found⟩⟩
      exact nofun
    | true =>
      rw [if_neg (by rw [read]; exact Bool.noConfusion)] at stops
      cases scan : scanAt v stop (v.table^[k] dir) lfn with
      | found =>
        rw [scan] at stops
        cases stops
        refine ⟨seen' goes, fun other => ⟨?_, fun found => stopped found⟩⟩
        intro same
        cases same
        exact ⟨k, lfn, here, goes, read, scan⟩
      | ended =>
        rw [scan] at stops
        cases stops
        refine ⟨seen' goes, fun entry => ⟨?_, fun found => nomatch stopped found⟩⟩
        exact nofun
      | more =>
        rw [scan] at stops
        cases stops
  · rw [if_neg goes] at stops
    cases stops
    refine ⟨seen, fun entry => ⟨?_, fun found => nomatch stopped found⟩⟩
    exact nofun

/-! Seen through another state of the cache, a directory is the same. -/

theorem scanAt_of_seen (seen : Seen v v') (cluster : Nat) (lfn : LfnState) :
    scanAt v' stop cluster lfn = scanAt v stop cluster lfn := by
  unfold scanAt
  rw [seen.table, seen.slots]

theorem lfnAt_of_seen (seen : Seen v v') (k : Nat) :
    lfnAt v' readable stop dir k = lfnAt v readable stop dir k := by
  induction k with
  | zero => rfl
  | succ _ ih => simp only [lfnAt, ih, scanAt_of_seen seen, seen.table]

theorem stopsAt_of_seen (seen : Seen v v') (entry : Found) :
    StopsAt v' readable stop dir entry ↔ StopsAt v readable stop dir entry := by
  unfold StopsAt
  simp only [lfnAt_of_seen seen, scanAt_of_seen seen, seen.table]

theorem dirSound_of_seen (seen : Seen v v') :
    DirSound v' readable stop dir ↔ DirSound v readable stop dir := by
  unfold DirSound Halts
  simp only [lfnAt_of_seen seen, scanAt_of_seen seen, seen.table]

theorem DirClear.of_seen (seen : Seen v v') (clear : DirClear v dir) : DirClear v' dir := by
  intro k before gap
  rw [seen.table] at before gap
  exact clear k before ((seen.toShape.gap _).mp gap)

end Iterate

/-! ### Paths -/

/-- The callback of a lookup. -/
def named (name : Path) : Slot → Path → Bool := fun _ other => nameEqCi name other

/-- Every directory the path leads through has the property, with the name that
is looked for in it. -/
def AlongPath (v : Volume) (readable : Nat → Bool) (holds : Nat → Path → Prop) :
    Nat → Path → Nat → Nat → Prop
  | 0, _, _, _ => True
  | fuel + 1, rest, left, cluster =>
    left = 0 ∨
      let component := (rest.takeWhile (· ≠ '/')).take (pathMax - 1)
      let after := rest.drop component.length
      let skip := if after.head? = some '/' then 1 else 0
      holds cluster component ∧ ∀ entry, StopsAt v readable (named component) cluster entry →
          Slot.directory entry.slot = true → AlongPath v readable holds fuel (after.drop skip)
            (left - (component.length + skip)) entry.slot.cluster

section Paths

variable {v : Volume} {readable : Nat → Bool}

theorem walkRun_more {rounds : Nat} (more : Nat) : ∀ (fuel : Nat) {v : Volume}
    {rest : Path} {left cluster : Nat} {result : Option Nat × Volume},
    walkRun readable rounds fuel v rest left cluster = some result →
    walkRun readable (rounds + more) fuel v rest left cluster = some result := by
  intro fuel
  induction fuel with
  | zero => exact fun done => done
  | succ _ ih =>
    intro v rest left cluster result done
    unfold walkRun at done ⊢
    split
    · next none' =>
        rw [if_pos none'] at done
        exact done
    next some' =>
      rw [if_neg some'] at done
      dsimp only at done ⊢
      generalize (rest.takeWhile (· ≠ '/')).take (pathMax - 1) = component at *
      cases looked : lookupRun readable rounds v cluster component with
      | none =>
        rw [looked] at done
        cases done
      | some found =>
        have again : lookupRun readable (rounds + more) v cluster component =
            some found := run_more more looked
        rw [looked] at done
        rw [again]
        obtain ⟨_ | _, _⟩ := found
        · exact done
        dsimp only at done ⊢
        split
        · next isDir =>
            rw [if_pos isDir] at done
            exact ih done
        · next noDir =>
            rw [if_neg noDir] at done
            exact done

/-- The walk through the directories of a path ends exactly where each of its
lookups does. -/
theorem walkRun_ends (tidy : Tidy v) : ∀ (fuel : Nat) {v' : Volume} {rest : Path}
    {left cluster : Nat}, Seen v v' →
    AlongPath v readable (fun dir _ => DirClear v dir) fuel rest left cluster →
    ((∃ rounds, (walkRun readable rounds fuel v' rest left cluster).isSome = true) ↔
      AlongPath v readable (fun dir name => DirSound v readable (named name) dir) fuel rest left
        cluster) := by
  intro fuel
  induction fuel with
  | zero => exact fun _ _ => ⟨fun _ => trivial, fun _ => ⟨0, rfl⟩⟩
  | succ fuel ih =>
    intro v' rest left cluster seen clear
    unfold AlongPath at clear ⊢
    unfold walkRun
    by_cases none' : left = 0
    · simp [none']
    simp only [none', if_false, false_or] at clear ⊢
    generalize (rest.takeWhile (· ≠ '/')).take (pathMax - 1) = component at *
    obtain ⟨here, onward⟩ := clear
    have tidy' := tidy.of_seen seen
    have ends := iterate_ends readable (named component) tidy' (here.of_seen seen)
    rw [dirSound_of_seen seen] at ends
    constructor
    · rintro ⟨rounds, done⟩
      cases looked : lookupRun readable rounds v' cluster component with
      | none =>
        rw [looked] at done
        cases done
      | some found =>
        rw [looked] at done
        have returns : Returns (iterStep readable (named component))
          ⟨v', cluster, LfnState.start⟩ found := ⟨rounds, looked⟩
        refine ⟨ends.mp ⟨found, returns⟩, fun entry stops isDir => ?_⟩
        obtain ⟨seen', which⟩ := iterate_returns tidy' (here.of_seen seen) returns
        obtain ⟨_, _⟩ := found
        obtain rfl := (which entry).mpr ((stopsAt_of_seen seen entry).mpr stops)
        dsimp only at done
        rw [if_pos isDir] at done
        exact (ih (seen.trans seen') (onward entry stops isDir)).mp ⟨rounds, done⟩
    · rintro ⟨sound, later⟩
      obtain ⟨found, returns⟩ := ends.mpr sound
      obtain ⟨seen', which⟩ := iterate_returns tidy' (here.of_seen seen) returns
      obtain ⟨rounds, looked⟩ := returns
      obtain ⟨_ | entry, v''⟩ := found
      · refine ⟨rounds, ?_⟩
        have same : lookupRun readable rounds v' cluster component = some (none, v'') := looked
        rw [same]
        rfl
      have stops := (stopsAt_of_seen seen entry).mp ((which entry).mp rfl)
      by_cases isDir : Slot.directory entry.slot = true
      · obtain ⟨more, done⟩ := (ih (seen.trans seen')
          (onward entry stops isDir)).mpr (later entry stops isDir)
        obtain ⟨_, done⟩ := Option.isSome_iff_exists.mp done
        refine ⟨rounds + more, ?_⟩
        have same : lookupRun readable (rounds + more) v' cluster component =
          some (some entry, v'') := run_more more looked
        have again := walkRun_more rounds fuel done
        rw [add_comm] at again
        rw [same]
        dsimp only
        rw [if_pos isDir, again]
        rfl
      · refine ⟨rounds, ?_⟩
        have same : lookupRun readable rounds v' cluster component =
          some (some entry, v'') := looked
        rw [same]
        dsimp only
        rw [if_neg isDir]
        rfl

end Paths

/-- The property along a path, where `resolve_path` looks anything up. -/
def ForPath (v : Volume) (readable : Nat → Bool) (holds : Nat → Path → Prop) (path : Path) : Prop :=
  path.head? ≠ some '/' ∨ path = ['/'] ∨ lastSep path = 0 ∨
    AlongPath v readable holds (path.length + 1) (path.drop 1) (lastSep path) v.rootCluster

theorem resolvePath_ends {v : Volume} {readable : Nat → Bool} (tidy : Tidy v)
    {path : Path} (clear : ForPath v readable (fun dir _ => DirClear v dir) path) :
    (∃ rounds, (resolvePathRun readable rounds v path).isSome = true) ↔
      ForPath v readable (fun dir name => DirSound v readable (named name) dir) path := by
  unfold resolvePathRun ForPath at *
  by_cases rooted : path.head? = some '/'
  · by_cases root : path = ['/']
    · simp [root]
    by_cases single : lastSep path = 0
    · simp [rooted, root, single]
    simp only [ne_eq, rooted, not_true_eq_false, root, single, false_or,
      if_false, Option.isSome_map] at clear ⊢
    exact walkRun_ends tidy _ (Seen.refl tidy.coherent) clear
  · simp [rooted]

/-! ### The length of a chain -/

/-- The walk of `fd_ensure_clusters` goes on behind the cluster. -/
def LeadsOn (v : Volume) (cluster : Nat) : Prop :=
  fatIsEoc (v.table cluster) = false

/-- No cluster the walk reads lies in the gap. -/
def ChainClear (v : Volume) (first : Nat) : Prop :=
  ∀ k, (∀ j < k, LeadsOn v (v.table^[j] first)) → ¬ v.Gap (v.table^[k] first)

theorem leadsOn_finite (v : Volume) : Set.Finite {cluster | LeadsOn v cluster} := by
  refine Set.Finite.subset
    (Set.finite_lt_nat (v.fatSizeSectors * entriesPerSector)) fun cluster leads => ?_
  exact (Nat.div_lt_iff_lt_mul (by decide)).mp (covers_of_goes leads)

theorem measureStep_at {v : Volume} (tidy : Tidy v) (seen : Seen v v') (proper : ¬ v.Gap cluster)
    (len : Nat) : (fatIsEoc (v.table cluster) = true → ∃ result, measureStep
    (v', cluster, len) = .inr result) ∧ (LeadsOn v cluster → ∃ v'', measureStep (v', cluster, len) =
      .inl (v'', v.table cluster, len + 1) ∧ Seen v v'') := by
  have tidy' := tidy.of_seen seen
  have proper' : ¬ v'.Gap cluster := fun gap => proper ((seen.toShape.gap cluster).mp gap)
  obtain ⟨value, seen'⟩ := fatRead_proper tidy'.coherent tidy'.reliable proper'
  have tidy'' := tidy'.of_seen seen'
  have proper'' : ¬ (fatRead v' cluster).2.Gap cluster :=
    fun gap => proper' ((seen'.toShape.gap cluster).mp gap)
  obtain ⟨value', seen''⟩ := fatRead_proper tidy''.coherent tidy''.reliable proper''
  rw [seen.table] at value
  rw [seen'.table, seen.table] at value'
  unfold measureStep LeadsOn
  dsimp only
  rw [value, value']
  constructor
  · intro eoc
    rw [if_pos eoc]
    exact ⟨_, rfl⟩
  · intro leads
    rw [if_neg (by rw [leads]; exact Bool.noConfusion)]
    exact ⟨_, rfl, (seen.trans seen').trans seen''⟩

theorem measure_after {v : Volume} (tidy : Tidy v) {first : Nat} (clear : ChainClear v first)
    (len : Nat) : ∀ k, (∀ j < k, LeadsOn v (v.table^[j] first)) → ∃ v', after measureStep k
    (v, first, len) = some (v', v.table^[k] first, len + k) ∧ Seen v v' := by
  intro k
  induction k with
  | zero => exact fun _ => ⟨v, rfl, Seen.refl tidy.coherent⟩
  | succ k ih =>
    intro before
    have before' : ∀ j < k, LeadsOn v (v.table^[j] first) :=
      fun j less => before j (Nat.lt_succ_of_lt less)
    obtain ⟨_, arrives, seen⟩ := ih before'
    obtain ⟨v'', round, seen'⟩ := (measureStep_at tidy seen
      (clear k before') (len + k)).2 (before k (Nat.lt_succ_self k))
    refine ⟨v'', ?_, seen'⟩
    rw [after_next, arrives]
    dsimp only
    rw [round, Function.iterate_succ_apply']
    rfl

theorem measure_ends {v : Volume} (tidy : Tidy v) {first : Nat} (clear : ChainClear v first) :
    Ends measureStep (v, first, 1) ↔ Apart v.table (LeadsOn v) first := by
  rw [apart_iff (leadsOn_finite v), ends_iff]
  constructor
  · rintro ⟨k, missing⟩
    by_contra always
    have on : ∀ j, LeadsOn v (v.table^[j] first) := by
      intro j
      by_contra stops
      exact always ⟨j, stops⟩
    obtain ⟨_, arrives, _⟩ := measure_after tidy clear 1 k fun j _ => on j
    rw [missing] at arrives
    cases arrives
  · intro stops
    classical
    have least := Nat.find_spec stops
    have before : ∀ j < Nat.find stops, LeadsOn v (v.table^[j] first) := by
      intro j less
      by_contra also
      exact Nat.find_min stops less also
    generalize Nat.find stops = k at least before
    obtain ⟨_, arrives, seen⟩ := measure_after tidy clear 1 k before
    obtain ⟨_, round⟩ := (measureStep_at tidy seen (clear k before)
      (1 + k)).1 (Bool.not_eq_false _ ▸ least)
    refine ⟨k + 1, ?_⟩
    rw [after_next, arrives]
    dsimp only
    rw [round]

/-! ### The release of a chain -/

/-- `fat_free_chain` goes on with the cluster. -/
def Freeable (cluster : Nat) : Prop :=
  2 ≤ cluster ∧ fatIsEoc cluster = false ∧ cluster ≠ fat32Bad

/-- The cluster can be reached along the entries of the table. -/
inductive Reach (table : Nat → Nat) : Nat → Nat → Prop where
  | here {cluster : Nat} (proper : Freeable cluster) : Reach table cluster cluster
  | onward {cluster target : Nat} (proper : Freeable cluster)
      (rest : Reach table (table cluster) target) : Reach table cluster target

variable {table : Nat → Nat}

theorem Reach.freeable {target : Nat} (reach : Reach table cluster target) : Freeable cluster := by
  cases reach with
  | here proper => exact proper
  | onward proper => exact proper

theorem freeable_free : ¬ Freeable fat32Free := by
  rintro ⟨impossible, _⟩
  exact absurd impossible (by decide)

theorem freeable_eoc : ¬ Freeable fat32Eoc := by
  rintro ⟨_, impossible, _⟩
  exact absurd impossible (by decide)

theorem Reach.of_freed {freed target : Nat}
    (reach : Reach (update table freed fat32Free) cluster target) : Reach table cluster target := by
  induction reach with
  | here proper => exact .here proper
  | @onward cluster target proper rest ih =>
    by_cases same : cluster = freed
    · subst same
      rw [update_self] at rest
      exact absurd rest.freeable freeable_free
    · rw [update_of_ne same] at ih
      exact .onward proper ih

theorem Reach.freed {target : Nat} (reach : Reach table cluster target) (freed : Nat) :
    target = freed ∨ Reach (update table freed fat32Free) cluster target ∨
      Reach (update table freed fat32Free) (table freed) target := by
  induction reach with
  | here proper => exact Or.inr (Or.inl (.here proper))
  | @onward cluster target proper rest ih =>
    by_cases same : cluster = freed
    · subst same
      rcases ih with rfl | near | far
      · exact Or.inl rfl
      · exact Or.inr (Or.inr near)
      · exact Or.inr (Or.inr far)
    · rcases ih with rfl | near | far
      · exact Or.inl rfl
      · refine Or.inr (Or.inl (.onward proper ?_))
        rw [update_of_ne same]
        exact near
      · exact Or.inr (Or.inr far)

/-- No cluster that can be reached lies in the gap. -/
def ReachClear (v : Volume) (start : Nat) : Prop :=
  ∀ cluster, Reach v.table start cluster → ¬ v.Gap cluster

/-- The entries that are not free. -/
def taken (v : Volume) : Finset Nat :=
  (Finset.range (v.fatSizeSectors * entriesPerSector)).filter
    fun cluster => v.table cluster ≠ fat32Free

/-- `fat_free_chain` frees the entry of each cluster that can be reached, and no
other. -/
def FreesReached (v : Volume) (start : Nat) (v' : Volume) : Prop :=
  ∀ cluster, v.Covers cluster → (Reach v.table start cluster → v'.table cluster = fat32Free) ∧
      (¬ Reach v.table start cluster → v'.table cluster = v.table cluster)

theorem freeStep_at {v : Volume} (tidy : Tidy v) (goes : Freeable cluster)
    (proper : ¬ v.Gap cluster) :
    ∃ v', freeStep (v, cluster) = .inl (v', v.table cluster) ∧ Tidy v' ∧ Shape v v' ∧
      v'.table = if v.Covers cluster then update v.table cluster fat32Free else v.table := by
  obtain ⟨value, seen⟩ := fatRead_proper tidy.coherent tidy.reliable proper
  have tidy' := tidy.of_seen seen
  have proper' : ¬ (fatRead v cluster).2.Gap cluster :=
    fun gap => proper ((seen.toShape.gap cluster).mp gap)
  obtain ⟨tabled, table⟩ := fatWrite_proper tidy'.coherent tidy'.reliable proper' fat32Free
  have shape := seen.toShape.trans tabled.toShape
  refine ⟨_, ?_, ⟨tabled.coherent, shape.reliable tidy.reliable⟩, shape, ?_⟩
  · unfold freeStep
    dsimp only
    rw [value]
    exact if_pos goes
  · rw [table, seen.table]
    by_cases covered : v.Covers cluster
    · rw [if_pos covered, if_pos ((seen.toShape.covers cluster).mpr covered)]
      rfl
    · rw [if_neg covered, if_neg (fun also => covered ((seen.toShape.covers cluster).mp also))]

theorem freeStep_stops {v : Volume} (stops : ¬ Freeable cluster) : freeStep (v, cluster) = .inr v :=
  if_neg stops

theorem taken_freed {v : Volume} (covered : v.Covers cluster)
    (occupied : v.table cluster ≠ fat32Free) (shape : Shape v v')
    (table : v'.table = update v.table cluster fat32Free) : (taken v').card < (taken v).card := by
  refine Finset.card_lt_card (Finset.ssubset_iff_of_subset ?_ |>.mpr ⟨cluster, ?_, ?_⟩)
  · intro other member
    unfold taken at member ⊢
    rw [Finset.mem_filter, Finset.mem_range, table, shape.fatSize] at member
    rw [Finset.mem_filter, Finset.mem_range]
    refine ⟨member.1, fun free => member.2 ?_⟩
    by_cases same : other = cluster
    · rw [same, update_self]
    · rw [update_of_ne same]
      exact free
  · unfold taken
    rw [Finset.mem_filter, Finset.mem_range]
    exact ⟨(Nat.div_lt_iff_lt_mul (by decide)).mp covered, occupied⟩
  · unfold taken
    rw [Finset.mem_filter, table, update_self]
    exact fun both => both.2 rfl

theorem freeChain_ends : ∀ (count : Nat) {v : Volume} {start : Nat}, Tidy v → ReachClear v start →
    (taken v).card = count → ∃ v', Returns freeStep (v, start) v' ∧ FreesReached v start v' := by
  intro count
  induction count using Nat.strong_induction_on with
  | _ _ ih =>
    intro v start tidy clear size
    by_cases goes : Freeable start
    · obtain ⟨v', round, tidy', shape, table⟩ := freeStep_at tidy goes (clear start (.here goes))
      by_cases covered : v.Covers start
      · rw [if_pos covered] at table
        by_cases free : v.table start = fat32Free
        · -- the entry was free already, and nothing lies behind it
          rw [free] at round
          refine ⟨v', (returns_goes round).mpr
            (returns_stops (freeStep_stops freeable_free)), fun cluster _ => ?_⟩
          rw [table, ← free, update_eq_self]
          refine ⟨fun reach => ?_, fun _ => rfl⟩
          cases reach with
          | here => rfl
          | onward _ rest =>
            rw [free] at rest
            exact absurd rest.freeable freeable_free
        have fewer := taken_freed covered free shape table
        have clear' : ReachClear v' (v.table start) := by
          intro cluster reach gap
          rw [table] at reach
          exact clear cluster (.onward goes reach.of_freed) ((shape.gap cluster).mp gap)
        obtain ⟨last, returns, frees⟩ := ih _ (size ▸ fewer) tidy' clear' rfl
        refine ⟨last, (returns_goes round).mpr returns, fun cluster inside => ?_⟩
        obtain ⟨reached, others⟩ := frees cluster ((shape.covers cluster).mpr inside)
        rw [table] at reached others
        by_cases later : Reach (update v.table start fat32Free) (v.table start) cluster
        · refine ⟨fun _ => reached later, fun never => ?_⟩
          exact absurd (.onward goes later.of_freed) never
        rw [others later]
        by_cases same : cluster = start
        · subst same
          rw [update_self]
          exact ⟨fun _ => rfl, fun never => absurd (.here goes) never⟩
        rw [update_of_ne same]
        refine ⟨fun reach => ?_, fun _ => rfl⟩
        cases reach with
        | here => exact absurd rfl same
        | onward _ rest =>
          rcases rest.freed start with equal | near | far
          · exact absurd equal same
          · exact absurd near later
          · exact absurd far later
      · rw [if_neg covered] at table
        have ended : v.table start = fat32Eoc := by
          unfold Volume.table
          rw [if_neg covered]
        rw [ended] at round
        refine ⟨v', (returns_goes round).mpr
          (returns_stops (freeStep_stops freeable_eoc)), fun cluster inside => ?_⟩
        rw [table]
        refine ⟨fun reach => ?_, fun _ => rfl⟩
        cases reach with
        | here => exact absurd inside covered
        | onward _ rest =>
          rw [ended] at rest
          exact absurd rest.freeable freeable_eoc
    · refine ⟨v, returns_stops (freeStep_stops goes), fun cluster _ => ?_⟩
      exact ⟨fun reach => absurd reach.freeable goes, fun _ => rfl⟩

/-! ### All walks -/

/-- The walks of the server over a chain. -/
inductive Walk where
  | iterate (dir : Nat) (stop : Slot → Path → Bool)
  | resolve (path : Path)
  | measure (first : Nat)
  | free (start : Nat)

/-- The walk comes to an end, and frees what it should. -/
def Terminates (v : Volume) (readable : Nat → Bool) : Walk → Prop
  | .iterate dir stop =>
    Ends (iterStep readable stop) ⟨v, dir, LfnState.start⟩
  | .resolve path =>
    ∃ rounds, (resolvePathRun readable rounds v path).isSome = true
  | .measure first => Ends measureStep (v, first, 1)
  | .free start =>
    ∃ v', Returns freeStep (v, start) v' ∧ FreesReached v start v'

/-- No cluster whose entry the walk reads lies in the gap. -/
def Clear (v : Volume) (readable : Nat → Bool) : Walk → Prop
  | .iterate dir _ => DirClear v dir
  | .resolve path => ForPath v readable (fun dir _ => DirClear v dir) path
  | .measure first => ChainClear v first
  | .free start => ReachClear v start

/-- The chain meets no cluster twice, or something stops the walk. -/
def Sound (v : Volume) (readable : Nat → Bool) : Walk → Prop
  | .iterate dir stop => DirSound v readable stop dir
  | .resolve path =>
    ForPath v readable (fun dir name => DirSound v readable (named name) dir) path
  | .measure first => Apart v.table (LeadsOn v) first
  | .free _ => True

/-- A walk ends exactly where its chain is sound; the release of a chain always
does. -/
theorem walks_end {v : Volume} (tidy : Tidy v) (readable : Nat → Bool) (walk : Walk)
    (clear : Clear v readable walk) : Terminates v readable walk ↔ Sound v readable walk := by
  cases walk with
  | iterate _ stop => exact iterate_ends readable stop tidy clear
  | resolve => exact resolvePath_ends tidy clear
  | measure => exact measure_ends tidy clear
  | free => exact ⟨fun _ => trivial, fun _ => freeChain_ends _ tidy clear rfl⟩

/-- The entries 5 and 6 follow each other for ever; a chain of 7 and 8 ends. -/
def cycle (cluster : Nat) : Nat :=
  match cluster with
  | 5 => 6
  | 6 => 5
  | 7 => 8
  | 8 => fat32Eoc
  | _ => 0

/-- A volume with this FAT, whose clusters hold nothing but deleted records. -/
def cyclic : Volume :=
  { volumeOf 128 1000 cycle with
    slots := fun _ => List.replicate 16 ⟨deletedMark, [], 0, 0, 0⟩ }

theorem cyclic_tidy : Tidy cyclic := by
  obtain ⟨coherent, reliable⟩ := volumeOf_tidy 128 1000 cycle
  exact ⟨{ coherent with }, reliable⟩

theorem cyclic_proper (cluster : Nat) : ¬ cyclic.Gap cluster := by
  rintro ⟨past, inside⟩
  have size : cyclic.fatSizeSectors = 128 := rfl
  unfold Volume.Covers at past
  unfold fatCacheSectors windowEntries fatCacheSectors entriesPerSector at *
  omega

/-- The release of the cycle ends, and so does a lookup in the other chain. -/
theorem walks_end_cyclic : Terminates cyclic (fun _ => true) (.free 5) ∧
    Terminates cyclic (fun _ => true) (.iterate 7 (named ['A'])) := by
  refine ⟨(walks_end cyclic_tidy _ (.free 5) fun cluster _ => cyclic_proper cluster).mpr trivial,
    (walks_end cyclic_tidy _ (.iterate 7 (named ['A'])) fun _ _ => cyclic_proper _).mpr
      (.inl fun i j order goes => ?_)⟩
  obtain rfl | later : j = 1 ∨ 2 ≤ j := by omega
  · obtain rfl : i = 0 := by omega
    decide
  · exact absurd (goes 2 later) (by decide)

/-- The walk that measures the chain does not end, nor does a scan of the
directory that finds nothing to stop at. -/
theorem walks_end_not : ¬ Terminates cyclic (fun _ => true) (.measure 5) ∧
      ¬ Terminates cyclic (fun _ => true) (.iterate 5 (named ['A'])) := by
  constructor
  · intro ends
    have apart := (measure_ends cyclic_tidy fun k _ => cyclic_proper _).mp ends
    refine apart 0 2 (by decide) ?_ rfl
    unfold LeadsOn
    decide
  intro ends
  rcases (iterate_ends _ _ cyclic_tidy fun k _ => cyclic_proper _).mp ends with
    apart | ⟨k, lfn, _, _, unread | ⟨entry, scan⟩⟩
  · exact apart 0 2 (by decide) (by decide) rfl
  · cases unread
  have none' : ∀ isLast (index : Nat) (state : LfnState) count,
      scanSlots (named ['A']) isLast (cyclic.table^[k] 5)
        (List.replicate count ⟨deletedMark, [], 0, 0, 0⟩) index state ≠ .found entry := by
    intro isLast index state count
    induction count generalizing index state with
    | zero => exact nofun
    | succ _ ih => exact ih (index + 1) ⟨false, state.buf⟩
  exact none' _ _ _ _ scan

end MainDob.Fs.Fat
