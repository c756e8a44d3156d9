/-
Purpose: Paths on a consistent FAT32 volume. `resolve_path` goes through directories of the volume
  only, and where it arrives is a matter of the lookups in them; so a change to the volume shows
  in a path exactly where it shows in a lookup on its way.
Main exports: Consistent, lookup, Way
-/
import MainDob.Proofs.DirInserts

namespace MainDob.Fs.Fat

open List Option

/-! ### Consistent volumes -/

/-- The directories `dirs` with their chains: each is well formed, and no two
share a cluster. -/
structure Directories (v : Volume) (dirs : Nat → Prop) (chain : Nat → List Nat) :
    Prop where
  dirAt : ∀ {dir}, dirs dir → DirAt v dir (chain dir)
  orderly : ∀ {dir}, dirs dir → Orderly v (chain dir)
  apart : ∀ {dir other}, dirs dir → dirs other → dir ≠ other →
    ∀ cluster ∈ chain dir, cluster ∉ chain other

/-- A volume whose directories are well formed and disjoint, with the root among
them and the directory of every entry but `..`; names in a directory differ in
more than case. -/
structure Consistent (v : Volume) (dirs : Nat → Prop) (chain : Nat → List Nat) :
    Prop extends Directories v dirs chain where
  root : dirs v.rootCluster
  down : ∀ {dir x}, dirs dir → x ∈ shown v (chain dir) →
    Slot.directory x.found.slot = true → x.name ≠ dotDotName → dirs x.found.slot.cluster
  distinct : ∀ {dir}, dirs dir → (shown v (chain dir)).Pairwise
    fun x y => nameEqCi x.name y.name = false

/-- What a name is found as in a directory. -/
def lookup (v : Volume) (chain : Nat → List Nat) (dir : Nat) (name : Path) :
    Option Found := firstNamed name (shown v (chain dir))

section

variable {v v' : Volume}

theorem lookup_seen (seen : Seen v v') (chain : Nat → List Nat) :
    lookup v' chain = lookup v chain := by
  funext dir name
  unfold lookup
  rw [shown_congr seen.slots]

theorem records_seen (seen : Seen v v') (cs : List Nat) :
    records v' cs = records v cs := records_congr seen.slots cs

theorem Orderly.of_records {cs : List Nat} (orderly : Orderly v cs)
    (same : records v' cs = records v cs) : Orderly v' cs := by
  refine ⟨?_, ?_, ?_⟩
  · rw [same]
    exact orderly.ended
  · rw [same]
    exact orderly.whole
  · rw [same]
    exact orderly.complete

theorem Consistent.of_seen {dirs : Nat → Prop} {chain : Nat → List Nat}
    (consistent : Consistent v dirs chain) (seen : Seen v v') : Consistent v' dirs chain where
  dirAt := fun inside => (consistent.dirAt inside).of_seen seen
  orderly := fun inside => (consistent.orderly inside).of_records (records_seen seen _)
  apart := consistent.apart
  root := by
    rw [seen.root]
    exact consistent.root
  down := by
    intro dir x inside member
    rw [shown_congr seen.slots] at member
    exact consistent.down inside member
  distinct := by
    intro dir inside
    rw [shown_congr seen.slots]
    exact consistent.distinct inside

end

/-! ### Safe components -/

theorem safe_prefix : ∀ {front back : Path},
    pathIsSafe (front ++ back) = true → pathIsSafe front = true
  | [], _, _ => rfl
  | [c], _, _ => by simp [pathIsSafe]
  | c :: d :: front, back, safe => by
    rw [cons_append, cons_append, pathIsSafe] at safe
    rw [pathIsSafe]
    split at safe
    · cases safe
    next calm =>
      have calm' : ¬(c = '.' ∧ (d :: front).head? = some '.') := calm
      rw [if_neg calm']
      exact safe_prefix safe

theorem component_prefix (rest : Path) (width : Nat) :
    ∃ more, rest = (rest.takeWhile (· ≠ '/')).take width ++ more := by
  refine ⟨(rest.takeWhile (· ≠ '/')).drop width ++ rest.dropWhile (· ≠ '/'), ?_⟩
  rw [← append_assoc, take_append_drop, takeWhile_append_dropWhile]

theorem safe_drop {path : Path} (safe : pathIsSafe path = true) (count : Nat) :
    pathIsSafe (path.drop count) = true := by
  rw [← take_append_drop count path] at safe
  exact safe_of_append safe

theorem component_straight {rest name : Path} (safe : pathIsSafe rest = true) {width : Nat}
    (same : nameEqCi ((rest.takeWhile (· ≠ '/')).take width) name = true) : name ≠ dotDotName := by
  rintro rfl
  obtain ⟨_, split⟩ := component_prefix rest width
  rw [split] at safe
  have calm := safe_prefix safe
  have fold' := nameEqCi_iff.mp same
  have parent : fold dotDotName = dotDotName := fold_eq_dotDot.mpr rfl
  rw [parent, fold_eq_dotDot] at fold'
  rw [fold'] at calm
  cases calm

theorem lookup_some {v : Volume} {chain : Nat → List Nat} {dir : Nat} {name : Path}
    {found : Found} (here : lookup v chain dir name = some found) :
    ∃ x ∈ shown v (chain dir), x.found = found ∧ nameEqCi name x.name = true := by
  obtain ⟨x, first, rfl⟩ := map_eq_some_iff.mp here
  have same := List.find?_some (p := fun entry : Shown => nameEqCi name entry.name) first
  exact ⟨x, mem_of_find?_eq_some first, rfl, same⟩

/-! ### Ways -/

/-- The walk of `resolve_path` over intermediate directories: the entries it
passes and the directory it comes to. -/
def route (find : Nat → Path → Option Found) : Nat → Path → Nat → Nat → Option (List Found × Nat)
  | 0, _, _, _ => none
  | fuel + 1, rest, left, cluster =>
    if left = 0 then some ([], cluster)
    else
      let component := (rest.takeWhile (· ≠ '/')).take (pathMax - 1)
      let after := rest.drop component.length
      let skip := if after.head? = some '/' then 1 else 0
      match find cluster component with
      | none => none
      | some entry =>
        if Slot.directory entry.slot then
          (route find fuel (after.drop skip)
            (left - (component.length + skip)) entry.slot.cluster).map
            fun ends => (entry :: ends.1, ends.2)
        else none

/-- A path is a walk, the directory it comes to, and a name to look up there. -/
structure Way where
  passed : List Found
  dir : Nat
  name : Path
deriving DecidableEq, Repr

/-- The way of a path from the root directory. -/
def wayOf (find : Nat → Path → Option Found) (root : Nat) (path : Path) :
    Option Way :=
  if path.head? ≠ some '/' then none
  else if path = ['/'] then some ⟨[], root, []⟩
  else if lastSep path = 0 then some ⟨[], root, path.drop 1⟩
  else
    (route find (path.length + 1) (path.drop 1) (lastSep path) root).map
      fun ends => ⟨ends.1, ends.2, path.drop (lastSep path + 1)⟩

section

variable {v : Volume} {dirs : Nat → Prop} {chain : Nat → List Nat}

theorem Consistent.enter (consistent : Consistent v dirs chain) {rest : Path}
    (safe : pathIsSafe rest = true) {dir width : Nat} (inside : dirs dir)
    {found : Found} (here : lookup v chain dir ((rest.takeWhile (· ≠ '/')).take width) = some found)
    (directory : Slot.directory found.slot = true) : dirs found.slot.cluster := by
  obtain ⟨_, member, rfl, same⟩ := lookup_some here
  exact consistent.down inside member directory (component_straight safe same)

theorem route_inside (consistent : Consistent v dirs chain) :
    ∀ {fuel : Nat} {rest : Path} {left dir : Nat} {ends : List Found × Nat},
      pathIsSafe rest = true → dirs dir →
      route (lookup v chain) fuel rest left dir = some ends → dirs ends.2
  | 0, _, _, _, _, _, _, way => by cases way
  | fuel + 1, rest, left, dir, ends, safe, inside, way => by
    unfold route at way
    split at way
    · cases way
      exact inside
    dsimp only at way
    split at way
    · cases way
    next entry here =>
      split at way
      · next directory =>
          obtain ⟨ends', later, rfl⟩ := map_eq_some_iff.mp way
          have entered := consistent.enter safe inside here directory
          change dirs ends'.2
          exact route_inside consistent (safe_drop (safe_drop safe _) _) entered later
      · cases way

theorem walkLoop_route : ∀ {fuel : Nat} {v : Volume} {rest : Path}
    {left dir : Nat}, Consistent v dirs chain → pathIsSafe rest = true →
    dirs dir →
    (walkLoop fuel v rest left dir).1 = (route (lookup v chain) fuel rest left dir).map Prod.snd ∧
      Seen v (walkLoop fuel v rest left dir).2
  | 0, v, _, _, dir, consistent, _, inside =>
    ⟨rfl, Seen.refl (consistent.dirAt inside).sound.coherent⟩
  | fuel + 1, v, rest, left, dir, consistent, safe, inside => by
    unfold walkLoop route
    by_cases done : left = 0
    · rw [if_pos done, if_pos done]
      exact ⟨rfl, Seen.refl (consistent.dirAt inside).sound.coherent⟩
    rw [if_neg done, if_neg done]
    dsimp only
    obtain ⟨result, seen⟩ := dirFindEntry_shown (consistent.dirAt inside)
      ((rest.takeWhile (· ≠ '/')).take (pathMax - 1))
    change _ = lookup v chain dir _ at result
    rw [← result]
    cases search : dirFindEntry v dir ((rest.takeWhile (· ≠ '/')).take (pathMax - 1)) with
    | mk entry =>
      rw [search] at result seen
      cases entry with
      | none => exact ⟨rfl, seen⟩
      | some entry =>
        dsimp only
        by_cases directory : Slot.directory entry.slot = true
        · obtain ⟨later, seen'⟩ := @walkLoop_route fuel _ _ _ _ (consistent.of_seen seen)
            (safe_drop (safe_drop safe _) _) (consistent.enter safe inside result.symm directory)
          rw [lookup_seen seen] at later
          rw [if_pos directory, if_pos directory]
          refine ⟨later.trans ?_, seen.trans seen'⟩
          rw [Option.map_map]
          rfl
        · rw [if_neg directory, if_neg directory]
          exact ⟨rfl, seen⟩

section

variable (consistent : Consistent v dirs chain) {path : Path} (safe : pathIsSafe path = true)
include consistent safe

theorem wayOf_inside {way : Way}
    (leads : wayOf (lookup v chain) v.rootCluster path = some way) : dirs way.dir := by
  unfold wayOf at leads
  split at leads
  · cases leads
  split at leads
  · cases leads
    exact consistent.root
  split at leads
  · cases leads
    exact consistent.root
  · obtain ⟨_, here, rfl⟩ := map_eq_some_iff.mp leads
    exact route_inside consistent (safe_drop safe 1) consistent.root here

theorem resolvePath_way : (resolvePath v path).1 = (wayOf (lookup v chain) v.rootCluster path).map
          (fun way => (way.dir, way.name)) ∧ Seen v (resolvePath v path).2 := by
  have still := Seen.refl (consistent.dirAt consistent.root).sound.coherent
  unfold resolvePath wayOf
  by_cases absolute : path.head? ≠ some '/'
  · rw [if_pos absolute, if_pos absolute]
    exact ⟨rfl, still⟩
  rw [if_neg absolute, if_neg absolute]
  by_cases top : path = ['/']
  · rw [if_pos top, if_pos top]
    exact ⟨rfl, still⟩
  rw [if_neg top, if_neg top]
  dsimp only
  by_cases flat : lastSep path = 0
  · rw [if_pos flat, if_pos flat]
    exact ⟨rfl, still⟩
  rw [if_neg flat, if_neg flat]
  obtain ⟨result, seen⟩ := @walkLoop_route _ _ (path.length + 1) v
    (path.drop 1) (lastSep path) _ consistent (safe_drop safe 1) consistent.root
  refine ⟨?_, seen⟩
  rw [result, Option.map_map, Option.map_map]
  rfl

theorem resolveFullPath_way (below : path ≠ ['/']) :
    (resolveFullPath v path).1 = (wayOf (lookup v chain) v.rootCluster path).bind
          (fun way => lookup v chain way.dir way.name) ∧ Seen v (resolveFullPath v path).2 := by
  obtain ⟨result, seen⟩ := resolvePath_way consistent safe
  unfold resolveFullPath
  rw [if_neg below]
  cases resolved : resolvePath v path with
  | mk =>
    rw [resolved] at result seen
    dsimp only at result seen ⊢
    cases leads : wayOf (lookup v chain) v.rootCluster path with
    | none =>
      rw [leads] at result
      rw [result]
      exact ⟨rfl, seen⟩
    | some way =>
      rw [leads] at result
      rw [result]
      have inside := wayOf_inside consistent safe leads
      obtain ⟨found, seen'⟩ := dirFindEntry_shown ((consistent.of_seen seen).dirAt inside) way.name
      rw [shown_congr seen.slots] at found
      exact ⟨found, seen.trans seen'⟩

end

end

/-! ### Walks on a volume that has changed -/

/-- On `u` the directories of `v` are there, with other chains maybe.  Lookups of
blocked entries fail; the others lead where they led. -/
structure Follows (v u : Volume) (dirs : Nat → Prop) (chain chain' : Nat → List Nat)
    (blocked : Found → Prop) : Prop where
  root : u.rootCluster = v.rootCluster
  dirAt : ∀ {dir}, dirs dir → DirAt u dir (chain' dir)
  lost : ∀ {dir name found}, dirs dir → lookup v chain dir name = some found →
    blocked found → lookup u chain' dir name = none
  kept : ∀ {dir name found}, dirs dir → lookup v chain dir name = some found → ¬blocked found →
    ∃ found', lookup u chain' dir name = some found' ∧ found'.slot.cluster = found.slot.cluster ∧
      Slot.directory found'.slot = Slot.directory found.slot

section

variable {v : Volume} {dirs : Nat → Prop} {chain chain' : Nat → List Nat} {blocked : Found → Prop}

theorem Follows.of_seen {u u' : Volume} (follows : Follows v u dirs chain chain' blocked)
    (seen : Seen u u') : Follows v u' dirs chain chain' blocked where
  root := seen.root.trans follows.root
  dirAt := fun inside => (follows.dirAt inside).of_seen seen
  lost := by
    rw [lookup_seen seen]
    exact follows.lost
  kept := by
    rw [lookup_seen seen]
    exact follows.kept

theorem walkLoop_follows (consistent : Consistent v dirs chain) : ∀ {fuel : Nat}
    {u : Volume} {rest : Path} {left dir : Nat} {ends : List Found × Nat},
    Follows v u dirs chain chain' blocked → pathIsSafe rest = true → dirs dir →
    route (lookup v chain) fuel rest left dir = some ends →
    Seen u (walkLoop fuel u rest left dir).2 ∧
      ((∀ found ∈ ends.1, ¬blocked found) → (walkLoop fuel u rest left dir).1 = some ends.2) ∧
      ((∃ found ∈ ends.1, blocked found) → (walkLoop fuel u rest left dir).1 = none)
  | 0, _, _, _, _, _, _, _, _, way => by cases way
  | fuel + 1, u, rest, left, dir, ends, follows, safe, inside, way => by
    unfold route at way
    unfold walkLoop
    by_cases done : left = 0
    · rw [if_pos done] at way ⊢
      cases way
      exact ⟨Seen.refl (follows.dirAt inside).sound.coherent, fun _ => rfl,
        fun ⟨_, member, _⟩ => nomatch member⟩
    rw [if_neg done] at way ⊢
    dsimp only at way ⊢
    obtain ⟨result, seen⟩ := dirFindEntry_shown (follows.dirAt inside)
      ((rest.takeWhile (· ≠ '/')).take (pathMax - 1))
    change _ = lookup u chain' dir _ at result
    cases here : lookup v chain dir ((rest.takeWhile (· ≠ '/')).take (pathMax - 1)) with
    | none =>
      rw [here] at way
      cases way
    | some entry =>
      rw [here] at way
      dsimp only at way
      cases search : dirFindEntry u dir ((rest.takeWhile (· ≠ '/')).take (pathMax - 1)) with
      | mk =>
        rw [search] at result seen
        dsimp only at result seen ⊢
        split at way
        case isFalse => cases way
        case isTrue directory =>
            obtain ⟨_, later, rfl⟩ := map_eq_some_iff.mp way
            by_cases stops : blocked entry
            · rw [follows.lost inside here stops] at result
              rw [result]
              exact ⟨seen, fun none => absurd stops (none entry mem_cons_self), fun _ => rfl⟩
            obtain ⟨_, there, cluster, kind⟩ := follows.kept inside here stops
            rw [there] at result
            rw [result]
            dsimp only
            rw [kind, if_pos directory, cluster]
            obtain ⟨seen', arrives, fails⟩ := walkLoop_follows consistent (follows.of_seen seen)
              (safe_drop (safe_drop safe _) _) (consistent.enter safe inside here directory) later
            refine ⟨seen.trans seen', fun none => arrives fun found member =>
              none found (mem_cons_of_mem _ member), ?_⟩
            rintro ⟨found, member, stops'⟩
            rcases mem_cons.mp member with rfl | member
            · exact absurd stops' stops
            · exact fails ⟨found, member, stops'⟩

section

variable (consistent : Consistent v dirs chain) {u : Volume}
  (follows : Follows v u dirs chain chain' blocked) {path : Path} (safe : pathIsSafe path = true)
include consistent follows safe

theorem resolvePath_follows {way : Way}
    (leads : wayOf (lookup v chain) v.rootCluster path = some way) : Seen u (resolvePath u path).2 ∧
    ((∀ found ∈ way.passed, ¬blocked found) → (resolvePath u path).1 = some (way.dir, way.name)) ∧
      ((∃ found ∈ way.passed, blocked found) → (resolvePath u path).1 = none) := by
  have still := Seen.refl (follows.dirAt consistent.root).sound.coherent
  unfold wayOf at leads
  unfold resolvePath
  by_cases absolute : path.head? ≠ some '/'
  · rw [if_pos absolute] at leads
    cases leads
  rw [if_neg absolute] at leads ⊢
  by_cases top : path = ['/']
  · rw [if_pos top] at leads ⊢
    cases leads
    exact ⟨still, fun _ => by rw [follows.root], fun ⟨_, member, _⟩ => nomatch member⟩
  rw [if_neg top] at leads ⊢
  dsimp only
  by_cases flat : lastSep path = 0
  · rw [if_pos flat] at leads ⊢
    cases leads
    exact ⟨still, fun _ => by rw [follows.root], fun ⟨_, member, _⟩ => nomatch member⟩
  rw [if_neg flat] at leads ⊢
  obtain ⟨_, here, rfl⟩ := map_eq_some_iff.mp leads
  rw [follows.root]
  obtain ⟨seen, arrives, fails⟩ := walkLoop_follows consistent follows
    (safe_drop safe 1) consistent.root here
  refine ⟨seen, fun none => ?_, fun some' => ?_⟩
  · rw [arrives none]
    rfl
  · rw [fails some']
    rfl

theorem resolveFullPath_follows (below : path ≠ ['/']) {way : Way} (leads : wayOf
    (lookup v chain) v.rootCluster path = some way) : ((∀ found ∈ way.passed, ¬blocked found) →
        (resolveFullPath u path).1 = lookup u chain' way.dir way.name) ∧
      ((∃ found ∈ way.passed, blocked found) → (resolveFullPath u path).1 = none) := by
  obtain ⟨seen, arrives, fails⟩ := resolvePath_follows consistent follows safe leads
  have inside := wayOf_inside consistent safe leads
  unfold resolveFullPath
  rw [if_neg below]
  cases resolved : resolvePath u path with
  | mk =>
    rw [resolved] at seen arrives fails
    dsimp only at seen arrives fails ⊢
    refine ⟨fun none => ?_, fun some' => ?_⟩
    · rw [arrives none]
      refine (dirFindEntry_shown ((follows.dirAt inside).of_seen seen) way.name).1.trans ?_
      rw [shown_congr seen.slots]
      rfl
    · rw [fails some']

end

end

end MainDob.Fs.Fat
