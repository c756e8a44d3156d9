/-
Purpose: A request looks at no outcome of a block write but those of the writes it makes: with
  other outcomes that agree in these it does the same.
Main exports: Volume.perfect, Oblivious, renameEntry_oblivious
-/
import MainDob.Fs.Rename

namespace MainDob.Fs

/-- The volume with other outcomes of its block writes. -/
def Volume.under (v : Volume) (outcome : Region → Nat → Bool) : Volume :=
  { v with outcome := outcome }

/-- The volume on a disk that takes every write. -/
def Volume.perfect (v : Volume) : Volume := v.under fun _ _ => true

/-- The block writes made on the way from `v` to `v'` end as `outcome` says. -/
def WritesAgree (v v' : Volume) (outcome : Region → Nat → Bool) : Prop :=
  ∀ region n, v.writes region ≤ n → n < v'.writes region → v.outcome region n = outcome region n

/-- A call that looks at no outcome but those of the writes it makes. -/
structure Oblivious {α : Type} (call : Volume → α × Volume) : Prop where
  grows : ∀ v region, v.writes region ≤ (call v).2.writes region
  keeps : ∀ v, (call v).2.outcome = v.outcome
  same : ∀ v outcome, WritesAgree v (call v).2 outcome →
    call (v.under outcome) = ((call v).1, (call v).2.under outcome)

namespace Oblivious

variable {α β κ : Type}

/-- A step that writes nothing. -/
theorem silent {call : Volume → α × Volume} (writes : ∀ v, (call v).2.writes = v.writes)
    (keeps : ∀ v, (call v).2.outcome = v.outcome) (same : ∀ v outcome, call
    (v.under outcome) = ((call v).1, (call v).2.under outcome)) : Oblivious call where
  grows := fun v region => Nat.le_of_eq (congrFun (writes v).symm region)
  keeps := keeps
  same := fun v outcome _ => same v outcome

theorem pure (value : α) : Oblivious fun v => (value, v) :=
  silent (fun _ => rfl) (fun _ => rfl) fun _ _ => rfl

/-- One call after the other. -/
theorem bind {first : Volume → α × Volume} {next : α → Volume → β × Volume} (one : Oblivious first)
    (two : ∀ value, Oblivious (next value)) : Oblivious fun v => next (first v).1 (first v).2 where
  grows := fun v region => Nat.le_trans (one.grows v region) ((two _).grows _ region)
  keeps := fun v => ((two _).keeps _).trans (one.keeps v)
  same := by
    intro v outcome agrees
    have later := (two (first v).1).grows (first v).2
    have start := one.same v outcome fun region n least below =>
      agrees region n least (Nat.lt_of_lt_of_le below (later region))
    have rest := (two (first v).1).same (first v).2 outcome fun region n least below => by
      rw [one.keeps]
      exact agrees region n (Nat.le_trans (one.grows v region) least) below
    rw [start]
    exact rest

/-- A call that is one call after the other. -/
theorem of_eq {call : Volume → β × Volume} {first : Volume → α × Volume}
    {next : α → Volume → β × Volume} (steps : ∀ v, call v = next (first v).1 (first v).2)
    (one : Oblivious first) (two : ∀ value, Oblivious (next value)) : Oblivious call :=
  (funext steps : call = _) ▸ one.bind two

/-- A call that goes on by whether the first one found something. -/
theorem bindOption {first : Volume → Option α × Volume} {absent : Volume → β × Volume}
    {present : α → Volume → β × Volume} (one : Oblivious first) (two : Oblivious absent)
    (three : ∀ a, Oblivious (present a)) :
    Oblivious fun v => (first v).1.elim (absent (first v).2) fun a => present a (first v).2 :=
  @bind _ _ first (fun found v => found.elim (absent v) fun a => present a v) one fun found => by
    cases found with
    | none => exact two
    | some a => exact three a

/-- A choice that no outcome changes. -/
theorem ite {choice : Volume → Prop} [∀ v, Decidable (choice v)] {yes no : Volume → α × Volume}
    (blind : ∀ v outcome, choice (v.under outcome) ↔ choice v) (one : Oblivious yes)
    (two : Oblivious no) : Oblivious fun v => if choice v then yes v else no v where
  grows := by
    intro v region
    split
    · exact one.grows v region
    · exact two.grows v region
  keeps := by
    intro v
    split
    · exact one.keeps v
    · exact two.keeps v
  same := by
    intro v outcome agrees
    by_cases chosen : choice v
    · rw [if_pos chosen] at agrees
      rw [if_pos chosen, if_pos ((blind v outcome).mpr chosen)]
      exact one.same v outcome agrees
    · rw [if_neg chosen] at agrees
      rw [if_neg chosen, if_neg fun other => chosen ((blind v outcome).mp other)]
      exact two.same v outcome agrees

/-- A call whose course depends on what no block write changes. -/
theorem still {f : κ → Volume → α × Volume} (key : Volume → κ) (blind : ∀ v outcome, key
    (v.under outcome) = key v) (each : ∀ k, Oblivious (f k)) : Oblivious fun v => f (key v) v where
  grows := fun v => (each (key v)).grows v
  keeps := fun v => (each (key v)).keeps v
  same := by
    intro v outcome agrees
    rw [blind]
    exact (each (key v)).same v outcome agrees

end Oblivious

/-! ### The table -/

theorem diskWrite_oblivious (region : Region) : Oblivious fun v => diskWrite v region where
  grows := by
    intro v other
    unfold diskWrite
    by_cases same : other = region
    · subst same
      simp
    · simp [same]
  keeps := fun _ => rfl
  same := by
    intro v outcome agrees
    have here := agrees region (v.writes region) (Nat.le_refl _) (by simp [diskWrite])
    unfold diskWrite
    rw [here]
    rfl

/-- A flush of a dirty window writes one or two copies. -/
theorem fatFlush_writes (v : Volume) : (fatFlush v).outcome = v.outcome ∧ (fatFlush v).writes =
      if v.fatCacheStart ≠ none ∧ v.fatCacheDirty = true then Function.update v.writes .fat
        (v.writes .fat + if 1 < v.numFats then 2 else 1) else v.writes := by
  unfold fatFlush
  cases v.fatCacheStart with
  | none => exact ⟨rfl, rfl⟩
  | some =>
    by_cases dirty : v.fatCacheDirty = true
    · by_cases two : 1 < v.numFats <;> simp [dirty, two, diskWrite]
    · simp [dirty]

theorem fatFlush_oblivious : Oblivious fun v => ((), fatFlush v) where
  grows := by
    intro v region
    rw [(fatFlush_writes v).2]
    by_cases fat : region = .fat
    · subst fat
      split <;> simp
    · split <;> simp [fat]
  keeps := fun v => (fatFlush_writes v).1
  same := by
    intro v outcome agrees
    unfold WritesAgree at agrees
    rw [(fatFlush_writes v).2] at agrees
    unfold fatFlush
    cases start : v.fatCacheStart with
    | none => simp [Volume.under, start]
    | some =>
      by_cases dirty : v.fatCacheDirty = true
      · have first := agrees .fat (v.writes .fat) (Nat.le_refl _)
          (by by_cases two : 1 < v.numFats <;> simp [start, dirty, two])
        by_cases two : 1 < v.numFats
        · have second := agrees .fat (v.writes .fat + 1) (Nat.le_succ _)
            (by simp [start, dirty, two])
          simp [Volume.under, start, dirty, two, diskWrite, first, second]
          exact ⟨rfl, rfl⟩
        · simp [Volume.under, start, dirty, two, diskWrite, first]
          rfl
      · simp [Volume.under, start, dirty]

theorem fatCacheLoad_oblivious (cluster : Nat) : Oblivious fun v => fatCacheLoad v cluster := by
  refine .ite (fun _ _ => Iff.rfl) (.pure false) (.ite (fun _ _ => Iff.rfl) (.pure true) ?_)
  exact @Oblivious.bind _ _ _ (fun _ v => (true, { v with
      fatCache := fun index =>
        if index < min fatCacheSectors (v.fatSizeSectors -
            cluster / windowEntries * fatCacheSectors) * entriesPerSector then
          v.fat (cluster / windowEntries * windowEntries + index)
        else v.fatCache index
      fatCacheStart := some (cluster / windowEntries) })) fatFlush_oblivious
    fun _ => .silent (fun _ => rfl) (fun _ => rfl) fun _ _ => rfl

theorem fatRead_oblivious (cluster : Nat) : Oblivious fun v => fatRead v cluster :=
  @Oblivious.bind _ _ _ (fun ok v => if ok then (v.fatCache (cluster % windowEntries) % fatMask, v)
    else (fat32Eoc, v)) (fatCacheLoad_oblivious cluster) fun ok => by
  cases ok with
  | true => exact .silent (fun _ => rfl) (fun _ => rfl) fun _ _ => rfl
  | false => exact .pure _

theorem markDirty_under (v : Volume) (sector : Nat) (outcome : Region → Nat → Bool) :
    markDirty (v.under outcome) sector = (markDirty v sector).under outcome := by
  unfold markDirty
  simp only [apply_ite (Volume.under · outcome)]
  rfl

theorem markDirty_silent (v : Volume) (sector : Nat) :
    (markDirty v sector).writes = v.writes ∧ (markDirty v sector).outcome = v.outcome := by
  unfold markDirty
  split
  · exact ⟨rfl, rfl⟩
  split
  · exact ⟨rfl, rfl⟩
  split <;> exact ⟨rfl, rfl⟩

theorem fatWrite_oblivious (cluster value : Nat) : Oblivious fun v => fatWrite v cluster value :=
  @Oblivious.bind _ _ _ (fun ok v => if ok then (true, markDirty (setCached v
    (cluster % windowEntries) value) (cluster % windowEntries / entriesPerSector))
    else (false, v)) (fatCacheLoad_oblivious cluster) fun ok => by
  cases ok with
  | true =>
    exact .silent (fun v => (markDirty_silent (setCached v _ value) _).1)
      (fun v => (markDirty_silent (setCached v _ value) _).2)
      fun v outcome => congrArg (Prod.mk true) (markDirty_under (setCached v _ value) _ outcome)
  | false => exact .pure _

/-! ### Clusters -/

theorem linkCluster_oblivious (last cluster : Nat) :
    Oblivious fun v => ((), linkCluster v last cluster) :=
  @Oblivious.bind _ _ _ (fun _ v => ((), if 2 ≤ last then (fatWrite v last cluster).2 else v))
    (fatWrite_oblivious cluster fat32Eoc) fun _ => by
  by_cases least : 2 ≤ last
  · simp only [least, if_true]
    exact @Oblivious.bind _ _ _ (fun _ v => ((), v)) (fatWrite_oblivious last cluster)
      fun _ => .pure ()
  · simp only [least, if_false]
    exact .pure ()

theorem findFree_oblivious : ∀ candidates, Oblivious (findFree candidates)
  | [] => .pure none
  | cluster :: rest =>
    @Oblivious.bind _ _ _ (fun entry v =>
      if entry = fat32Free then (some cluster, v) else findFree rest v)
      (fatRead_oblivious cluster)
      fun _ => .ite (fun _ _ => Iff.rfl) (.pure _) (findFree_oblivious rest)

/-- `fat_alloc_cluster` once the search has ended. -/
def linkFound (prev : Nat) : Option Nat → Volume → Nat × Volume
  | none, v => (0, v)
  | some cluster, v =>
    let (ok, v) := diskWrite (linkCluster v prev cluster) .dir
    (cluster, { v with
      slots := if ok then
          Function.update v.slots cluster (List.replicate (slotsPerCluster v) Slot.zero)
        else v.slots
      nextFreeHint := cluster + 1 })

theorem fatAllocCluster_oblivious (prev : Nat) : Oblivious fun v => fatAllocCluster v prev := by
  refine @Oblivious.of_eq _ _ _ _ (linkFound prev) (fun v => ?_)
    (.still searchOrder (fun _ _ => rfl) findFree_oblivious) fun found => ?_
  · unfold fatAllocCluster
    rcases findFree (searchOrder v) v with ⟨_ | _, _⟩ <;> rfl
  cases found with
  | none => exact .pure 0
  | some cluster =>
    exact @Oblivious.bind _ _ _ (fun ok v => (cluster, { v with
        slots := if ok then
            Function.update v.slots cluster (List.replicate (slotsPerCluster v) Slot.zero)
          else v.slots
        nextFreeHint := cluster + 1 }))
      (@Oblivious.bind _ _ _ (fun _ v => diskWrite v .dir) (linkCluster_oblivious prev cluster)
        fun _ => diskWrite_oblivious .dir)
      fun _ => .silent (fun _ => rfl) (fun _ => rfl) fun _ _ => rfl

theorem writeSlots_oblivious (cluster : Nat) (slots : List Slot) :
    Oblivious fun v => writeSlots v cluster slots := by
  refine .ite (fun _ _ => Iff.rfl) (.pure false) ?_
  refine @Oblivious.bind _ _ _ (fun ok v =>
    if ok then (true, { v with slots := Function.update v.slots cluster slots }) else (false, v))
    (diskWrite_oblivious .dir) fun ok => ?_
  cases ok with
  | true => exact .silent (fun _ => rfl) (fun _ => rfl) fun _ _ => rfl
  | false => exact .pure _

/-! ### Directories and paths -/

namespace Fat

theorem iterLoop_oblivious (stop : Slot → Path → Bool) (fuel cluster : Nat) (state : LfnState) :
    Oblivious fun v => iterLoop stop fuel v cluster state := by
  induction fuel generalizing cluster state with
  | zero => exact .pure none
  | succ fuel ih =>
    refine .ite (fun _ _ => Iff.rfl) ?_ (.pure none)
    let go (next : Nat) (v : Volume) (scan : Scan) : Option Found × Volume :=
      scan.rec (fun entry => (some entry, v)) (none, v) fun state => iterLoop stop fuel v next state
    refine @Oblivious.of_eq _ _ _ _ (fun next v => go next v
      (scanSlots stop (fatIsEoc next) cluster (v.slots cluster) 0 state)) (fun v => ?_)
      (fatRead_oblivious cluster) fun next => .still (f := fun scan v => go next v scan)
        (fun v => scanSlots stop (fatIsEoc next) cluster (v.slots cluster) 0 state)
        (fun _ _ => rfl) fun scan => ?_
    · rcases fatRead v cluster with ⟨next, v⟩
      dsimp only [go]
      cases scanSlots stop (fatIsEoc next) cluster (v.slots cluster) 0 state <;> rfl
    cases scan with
    | found entry => exact .pure (some entry)
    | ended => exact .pure none
    | more state => exact ih next state

theorem dirFindEntry_oblivious (cluster : Nat) (name : Path) :
    Oblivious fun v => dirFindEntry v cluster name :=
  .still (fun v => v.totalClusters + 3) (fun _ _ => rfl)
    fun fuel => iterLoop_oblivious (fun _ other => nameEqCi name other) fuel cluster .start

theorem walkLoop_oblivious : ∀ (fuel : Nat) (rest : Path) (left cluster : Nat),
    Oblivious fun v => walkLoop fuel v rest left cluster
  | 0, _, _, _ => .pure none
  | fuel + 1, rest, left, cluster => by
    let component := (rest.takeWhile (· ≠ '/')).take (pathMax - 1)
    let after := rest.drop component.length
    let skip := if after.head? = some '/' then 1 else 0
    refine .ite (fun _ _ => Iff.rfl) (.pure (some cluster)) ?_
    refine @Oblivious.of_eq _ _ _ _ (fun found v => match found with
      | none => (none, v)
      | some entry =>
        if Slot.directory entry.slot then
          walkLoop fuel v (after.drop skip) (left - (component.length + skip)) entry.slot.cluster
        else (none, v)) (fun v => ?_) (dirFindEntry_oblivious cluster component) fun found => ?_
    · dsimp only
      rcases dirFindEntry v cluster component with ⟨_ | _, _⟩ <;> rfl
    cases found with
    | none => exact .pure none
    | some entry => exact .ite (fun _ _ => Iff.rfl) (walkLoop_oblivious fuel ..) (.pure none)

theorem resolvePath_oblivious (path : Path) : Oblivious fun v => resolvePath v path := by
  refine .ite (fun _ _ => Iff.rfl) (.pure none) (.ite (fun _ _ => Iff.rfl) ?_ ?_)
  · exact .silent (fun _ => rfl) (fun _ => rfl) fun _ _ => rfl
  refine .ite (fun _ _ => Iff.rfl) ?_ ?_
  · exact .silent (fun _ => rfl) (fun _ => rfl) fun _ _ => rfl
  · exact @Oblivious.bind _ _ _ (fun parent v =>
      (parent.map fun cluster => (cluster, path.drop (lastSep path + 1)), v))
      (.still Volume.rootCluster (fun _ _ => rfl)
        (walkLoop_oblivious (path.length + 1) (path.drop 1) (lastSep path))) fun _ => .pure _

theorem resolveFullPath_oblivious (path : Path) : Oblivious fun v => resolveFullPath v path := by
  refine .ite (fun _ _ => Iff.rfl) (.silent (fun _ => rfl) (fun _ => rfl) fun _ _ => rfl) ?_
  refine @Oblivious.of_eq _ _ _ _ (fun found v => match found with
    | none => (none, v)
    | some (parent, basename) => dirFindEntry v parent basename) (fun v => ?_)
    (resolvePath_oblivious path) fun found => ?_
  · rcases resolvePath v path with ⟨_ | _, _⟩ <;> rfl
  cases found with
  | none => exact .pure none
  | some place => exact dirFindEntry_oblivious place.1 place.2

theorem shortNameLoop_oblivious (longName : Path) (cluster : Nat) :
    ∀ (numbers : List Nat) (last : List Char),
      Oblivious fun v => shortNameLoop longName cluster numbers v last
  | [], last => .pure last
  | n :: rest, _ => by
    unfold shortNameLoop
    refine @Oblivious.of_eq _ _ _ _ (fun found v => match found with
      | none => (numbered83 longName n, v)
      | some _ => shortNameLoop longName cluster rest v (numbered83 longName n)) (fun v => ?_)
      (dirFindEntry_oblivious cluster (joined83 (numbered83 longName n))) fun found => ?_
    · dsimp only
      rcases dirFindEntry v cluster (joined83 (numbered83 longName n)) with ⟨_ | _, _⟩ <;> rfl
    cases found with
    | none => exact .pure _
    | some => exact shortNameLoop_oblivious longName cluster rest _

theorem generateShortName_oblivious (longName : Path) (cluster : Nat) :
    Oblivious fun v => generateShortName v longName cluster :=
  shortNameLoop_oblivious longName cluster (List.range' 1 99) (List.replicate 11 ' ')

/-! ### Additions and renames -/

theorem extendDir_oblivious (cluster : Nat) (new : List Slot) :
    Oblivious fun v => extendDir v cluster new := by
  have patch : Oblivious fun v => ((), if (v.slots cluster).any (·.mark == 0) then
      (writeSlots v cluster (patched (v.slots cluster))).2 else v) := by
    refine .still (f := fun slots v => ((), if slots.any (·.mark == 0) then
      (writeSlots v cluster (patched slots)).2 else v)) (fun v => v.slots cluster)
      (fun _ _ => rfl) fun slots => ?_
    by_cases marked : slots.any (·.mark == 0) = true
    · simp only [marked, if_true]
      exact @Oblivious.bind _ _ _ (fun _ v => ((), v)) (writeSlots_oblivious cluster _)
        fun _ => .pure ()
    · simp only [marked]
      exact .pure ()
  refine @Oblivious.bind _ _ _ (fun added v => if added = 0 then (false, v)
    else (true, (writeSlots v added (place (v.slots added) 0 new)).2))
    (@Oblivious.bind _ _ _ (fun _ v => fatAllocCluster v cluster) patch
      fun _ => fatAllocCluster_oblivious cluster) fun added => ?_
  refine .ite (fun _ _ => Iff.rfl) (.pure false) ?_
  exact @Oblivious.bind _ _ _ (fun _ v => (true, v)) (.still (fun v => place (v.slots added) 0 new)
    (fun _ _ => rfl) (writeSlots_oblivious added)) fun _ => .pure true

theorem addLoop_oblivious (new : List Slot) (fuel cluster : Nat) :
    Oblivious fun v => addLoop new fuel v cluster := by
  induction fuel generalizing cluster with
  | zero => exact .pure false
  | succ fuel ih =>
    refine .ite (fun _ _ => Iff.rfl) ?_ (.pure false)
    refine @Oblivious.of_eq _ _ _ (fun v => (v.slots cluster, v)) (fun slots v =>
      (findRun new.length slots 0 0 0).elim
        (let next := fatRead v cluster
          if fatIsEoc next.1 then extendDir next.2 cluster new else addLoop new fuel next.2 next.1)
        fun start => (true, (writeSlots v cluster (place slots start new)).2)) (fun v => ?_)
      (.silent (fun _ => rfl) (fun _ => rfl) fun _ _ => rfl) fun slots => ?_
    · dsimp only
      cases findRun new.length (v.slots cluster) 0 0 0 <;> rfl
    cases findRun new.length slots 0 0 0 with
    | some start =>
      exact @Oblivious.bind _ _ _ (fun _ v => (true, v)) (writeSlots_oblivious cluster _)
        fun _ => .pure true
    | none =>
      exact @Oblivious.bind _ _ _ (fun next v =>
        if fatIsEoc next then extendDir v cluster new else addLoop new fuel v next)
        (fatRead_oblivious cluster) fun next =>
          .ite (fun _ _ => Iff.rfl) (extendDir_oblivious cluster new) (ih next)

theorem dirAddEntry_oblivious (cluster : Nat) (name : Path) (first size attr : Nat) :
    Oblivious fun v => dirAddEntry v cluster name first size attr := by
  have add : ∀ new, Oblivious fun v => addLoop new (v.totalClusters + 3) v cluster := fun new =>
    .still (fun v => v.totalClusters + 3) (fun _ _ => rfl) (addLoop_oblivious new · cluster)
  refine .ite (fun _ _ => Iff.rfl) ?_ ?_
  · exact @Oblivious.bind _ _ _ (fun short v => addLoop (newEntries name
      ((name.length + 12) / 13) short first size attr) (v.totalClusters + 3) v cluster)
      (generateShortName_oblivious name cluster) fun _ => add _
  · cases encode83Name name with
    | none => exact .pure false
    | some short => exact add _

theorem restoreEntry_oblivious (old : Path) (slot : Slot) :
    Oblivious fun v => ((), restoreEntry v old slot) := by
  refine @Oblivious.of_eq _ _ _ _ (fun place v => match place with
    | none => ((), v)
    | some (parent, basename) =>
      ((), (dirAddEntry v parent basename slot.cluster slot.size slot.attr).2)) (fun v => ?_)
    (resolvePath_oblivious old) fun place => ?_
  · unfold restoreEntry
    rcases resolvePath v old with ⟨_ | _, _⟩ <;> rfl
  cases place with
  | none => exact .pure ()
  | some place =>
    exact @Oblivious.bind _ _ _ (fun _ v => ((), v)) (dirAddEntry_oblivious place.1 place.2 ..)
      fun _ => .pure ()

theorem moveEntry_oblivious (old : Path) (entry : Found) (parent : Nat) (basename : Path) :
    Oblivious fun v => moveEntry v old entry parent basename := by
  refine @Oblivious.of_eq _ _ _ _ (fun ok v => match ok with
    | true => (.ok, fatFlush v)
    | false => (.internal, fatFlush (restoreEntry v old entry.slot))) (fun v => ?_)
    (@Oblivious.bind _ _ _ (fun _ v => dirAddEntry v parent basename entry.slot.cluster
      entry.slot.size entry.slot.attr)
      (.still (fun v => removeAt (v.slots entry.cluster) entry.index) (fun _ _ => rfl)
        (writeSlots_oblivious entry.cluster)) fun _ => dirAddEntry_oblivious parent basename ..)
    fun ok => ?_
  · unfold moveEntry dirRemoveEntry
    dsimp only
    generalize (writeSlots v entry.cluster (removeAt (v.slots entry.cluster) entry.index)).2 = u
    rcases dirAddEntry u parent basename entry.slot.cluster entry.slot.size
      entry.slot.attr with ⟨_ | _, _⟩ <;> rfl
  cases ok with
  | true =>
    exact @Oblivious.bind _ _ _ (fun _ v => (Status.ok, v)) fatFlush_oblivious fun _ => .pure _
  | false =>
    exact @Oblivious.bind _ _ _ (fun _ v => (Status.internal, v))
      (@Oblivious.bind _ _ _ (fun _ v => ((), fatFlush v)) (restoreEntry_oblivious old entry.slot)
        fun _ => fatFlush_oblivious) fun _ => .pure _

/-- RENAME looks at the outcomes of its own writes alone. -/
theorem renameEntry_oblivious (old new : Path) : Oblivious fun v => renameEntry v old new := by
  have renamed (v : Volume) : renameEntry v old new =
      let found := resolveFullPath v old
      found.1.elim (.notFound, found.2) fun entry =>
        let place := resolvePath found.2 new
        place.1.elim (.notFound, place.2) fun target =>
          let other := resolveFullPath place.2 new
          other.1.elim (moveEntry other.2 old entry target.1 target.2)
            fun _ => (.denied, other.2) := by
    unfold renameEntry
    rcases resolveFullPath v old with ⟨_ | entry, v⟩
    · rfl
    dsimp only
    rcases resolvePath v new with ⟨_ | target, v⟩
    · rfl
    dsimp only
    rcases resolveFullPath v new with ⟨_ | _, v⟩ <;> rfl
  simp only [renamed]
  exact .bindOption (resolveFullPath_oblivious old) (.pure _) fun entry =>
    .bindOption (resolvePath_oblivious new) (.pure _) fun target =>
      .bindOption (resolveFullPath_oblivious new)
        (moveEntry_oblivious old entry target.1 target.2) fun _ => .pure _

end Fat

end MainDob.Fs
