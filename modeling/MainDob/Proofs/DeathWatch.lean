/-
Purpose: What a successful `deathwatch_add` is worth: over every interleaving
  in which no watch is entered after the last collection for its incarnation,
  each watch is notified once, for its own incarnation.
Main exports: Carried, places, death_watch_contract
-/
import MainDob.Kernel.DeathWatch
import MainDob.Proofs.PortIdentity
import Mathlib.Data.List.ReduceOption

namespace MainDob.Kernel.Port

open Function (update update_of_ne update_self)
open List

/-! ### What port steps leave alone -/

/-- Between two states no port loses its place in the table, a port in the
table that was not there is a new incarnation, and live structs keep their
identity. -/
structure Carried (s s' : State) : Prop where
  kept : ∀ {id p}, s.table id = some p → s'.table id = some p
  old : ∀ {id p}, s'.table id = some p → s.table id = some p ∨ (s'.heap p).serial = s.history.length
  identity : ∀ {p}, Live s p → (s'.heap p).id = (s.heap p).id ∧
    (s'.heap p).generation = (s.heap p).generation ∧ (s'.heap p).serial = (s.heap p).serial
  recorded : ∀ {serial : Nat} {incarnation : Incarnation},
    s.history[serial]? = some incarnation → s'.history[serial]? = some incarnation
  destroyed : ∀ {serial}, serial ∈ s.destroyed → serial ∈ s'.destroyed

variable {s' : State}

theorem carried_of_counts {s : State} (table : s'.table = s.table)
    (history : s'.history = s.history) (destroyed : s'.destroyed = s.destroyed)
    (identity : ∀ p, (s'.heap p).id = (s.heap p).id ∧
      (s'.heap p).generation = (s.heap p).generation ∧
      (s'.heap p).serial = (s.heap p).serial) : Carried s s' where
  kept := fun found => table ▸ found
  old := fun found => .inl (table ▸ found)
  identity := fun _ => identity _
  recorded := fun found => history ▸ found
  destroyed := fun member => destroyed ▸ member

theorem carried_of_recount {s : State} {p : Addr} {count : Nat} (table : s'.table = s.table)
    (history : s'.history = s.history) (destroyed : s'.destroyed = s.destroyed)
    (heap : s'.heap = update s.heap p { s.heap p with refcount := count }) : Carried s s' := by
  refine carried_of_counts table history destroyed fun q => ?_
  rw [heap]
  by_cases same : q = p
  · subst same
    rw [update_self]
    exact ⟨rfl, rfl, rfl⟩
  · rw [update_of_ne same]
    exact ⟨rfl, rfl, rfl⟩

theorem takeRef_carried (s : State) (t : Tid) (found : Option Addr) :
    Carried s (takeRef s t found) := by
  cases found with
  | none => exact carried_of_counts rfl rfl rfl fun _ => ⟨rfl, rfl, rfl⟩
  | some => exact carried_of_recount rfl rfl rfl rfl

theorem create_carried {s : State} (inv : Inv s) (owner : Int) {fresh : Option Addr}
    (ok : freshOk s fresh = true) : Carried s (ipcPortCreate s owner fresh) := by
  unfold ipcPortCreate
  split
  · exact carried_of_counts rfl rfl rfl fun _ => ⟨rfl, rfl, rfl⟩
  next id ids free =>
  split
  · exact carried_of_counts rfl rfl rfl fun _ => ⟨rfl, rfl, rfl⟩
  next p recycle allocated taken =>
  obtain ⟨_, _, _, _, liveIff⟩ := inv.alloc_spec ok taken
  have notLive : ∀ {q}, Live s q → q ≠ p := fun live => ((liveIff _).mp live).2
  have unused : ∀ q, s.table id ≠ some q := by
    intro q found
    obtain ⟨live, mine, _⟩ := (inv.ownership.table_iff id q).mp found
    have nodup := inv.ownership.ids
    rw [free] at nodup
    refine (nodup_append.mp nodup).2.2 id mem_cons_self id ?_ rfl
    exact mem_append_right _ (mem_map.mpr ⟨q, live, mine⟩)
  refine ⟨?_, ?_, ?_, ?_, fun member => member⟩
  · intro other q found
    have different : other ≠ id := by
      rintro rfl
      exact unused q found
    exact (update_of_ne different _ _).trans found
  · intro other q found
    by_cases same : other = id
    · subst same
      simp only [publish, update_self] at found
      cases found
      refine .inr ?_
      simp [publish]
    · exact .inl ((update_of_ne same _ _).symm.trans found)
  · intro q live
    have different := notLive live
    simp [publish, update_of_ne different]
  · intro serial incarnation found
    have inside := (List.getElem?_eq_some_iff.mp found).1
    exact (List.getElem?_append_left inside).trans found

theorem step_carried {s : State} {label : Label} (inv : Inv s) (taken : Step s label s')
    (other : ∀ t id, label ≠ .destroy t id) : Carried s s' := by
  cases taken.effect with
  | create ok => exact create_carried inv _ ok
  | destroy => exact absurd rfl (other _ _)
  | get | getChecked => exact takeRef_carried ..
  | drop => exact carried_of_recount rfl rfl rfl rfl
  | structFree | pushId => exact carried_of_counts rfl rfl rfl fun _ => ⟨rfl, rfl, rfl⟩

theorem slot_kept {s : State} {label : Label} {t : Tid} {p : Addr}
    (taken : Step s label s') (member : (t, .slot p) ∈ s.pool)
    (other : label ≠ .drop t (.slot p)) : (t, .slot p) ∈ s'.pool := by
  cases taken.effect with
  | create =>
    unfold ipcPortCreate
    split
    · exact member
    · split <;> exact member
  | destroy =>
    unfold ipcPortDestroy
    split
    · split
      · exact member
      · exact mem_cons_of_mem _ member
    · exact member
  | get | getChecked =>
    unfold takeRef
    split
    · exact member
    · exact mem_cons_of_mem _ member
  | @drop thread h =>
    have different : (t, Holder.slot p) ≠ (thread, h) := by
      intro same
      cases same
      exact other rfl
    have stays := (mem_erase_of_ne different).mpr member
    unfold dropRef
    dsimp only
    split
    · exact mem_cons_of_mem _ stays
    · exact stays
  | structFree => exact mem_cons_of_mem _ ((mem_erase_of_ne (by simp)).mpr member)
  | pushId => exact (mem_erase_of_ne (by simp)).mpr member

theorem Inv.live_unique {s : State} (inv : Inv s) {p q : Addr} (first : Live s p)
    (second : Live s q) (same : (s.heap p).id = (s.heap q).id) : p = q := by
  have nodup := (nodup_append.mp (nodup_append.mp inv.ownership.ids).2.1).2.1
  exact inj_on_of_nodup_map nodup first second same

theorem Inv.serial_unique {s : State} (inv : Inv s) {p q : Addr} (first : Live s p)
    (second : Live s q) (same : (s.heap p).serial = (s.heap q).serial) : p = q := by
  have recorded := inv.history.live_recorded p first
  rw [same, inv.history.live_recorded q second] at recorded
  refine inv.live_unique first second ?_
  have fields := Option.some.inj recorded
  rw [Incarnation.mk.injEq] at fields
  exact fields.1.symm

end MainDob.Kernel.Port

namespace MainDob.Kernel.DeathWatch

open Function (update update_of_ne update_self)
open Port (Addr Tid ipcPortGet)
open Lib
open List Option

/-! ### The watch table -/

section Table

variable {slots slots' : List (Option Watch)} {watch : Watch}

theorem enter_perm (entered : enter watch slots = some slots') :
    slots'.reduceOption.Perm (watch :: slots.reduceOption) := by
  induction slots generalizing slots' with
  | nil => cases entered
  | cons slot _ ih =>
    cases slot with
    | none =>
      cases entered
      simp
    | some other =>
      obtain ⟨_, enteredRest, rfl⟩ := map_eq_some_iff.mp entered
      exact ((ih enteredRest).cons other).trans (List.Perm.swap watch other _)

theorem findObserved_some {add : Add} (found : findObserved slots add = some watch) :
    watch ∈ slots.reduceOption ∧ add.observed watch = true := by
  obtain ⟨_, member, filtered⟩ := exists_of_findSome?_eq_some found
  obtain ⟨rfl, observed⟩ := filter_eq_some_iff.mp filtered
  exact ⟨mem_filterMap.mpr ⟨_, member, rfl⟩, observed⟩

section Collect

variable (targetPort targetGen : Nat)

theorem collect_perm (count : Nat) (slots : List (Option Watch)) :
    ((collect targetPort targetGen count slots).1 ++
      (collect targetPort targetGen count slots).2.reduceOption).Perm slots.reduceOption := by
  fun_induction collect targetPort targetGen count slots with
  | case1 => simp
  | case2 => simp
  | case3 _ _ _ _ eq ih =>
    rw [eq] at ih
    simpa using ih
  | case4 _ _ _ _ _ _ eq ih =>
    rw [eq] at ih
    simpa using ih
  | case5 _ watch _ _ _ _ eq ih =>
    rw [eq] at ih
    exact perm_middle.trans (ih.cons watch)

theorem collect_matching (count : Nat) (slots : List (Option Watch)) :
    ∀ watch ∈ (collect targetPort targetGen count slots).1,
      watch.targetPort = targetPort ∧ watch.targetGen = targetGen := by
  fun_induction collect targetPort targetGen count slots with
  | case1 => simp
  | case2 => simp
  | case3 _ _ _ _ eq ih =>
    rw [eq] at ih
    exact ih
  | case4 _ _ _ hit _ _ eq ih =>
    rw [eq] at ih
    intro other member
    rcases mem_cons.mp member with rfl | inBatch
    · exact hit
    · exact ih other inBatch
  | case5 _ _ _ _ _ _ eq ih =>
    rw [eq] at ih
    exact ih

theorem collect_rest (count : Nat) (slots : List (Option Watch)) :
    (collect targetPort targetGen count slots).1.length = count ∨
      ∀ watch ∈ (collect targetPort targetGen count slots).2.reduceOption,
        ¬ (watch.targetPort = targetPort ∧ watch.targetGen = targetGen) := by
  fun_induction collect targetPort targetGen count slots with
  | case1 => exact .inl rfl
  | case2 => exact .inr (by simp)
  | case3 _ _ _ _ eq ih =>
    rw [eq] at ih
    simpa using ih
  | case4 _ _ _ _ _ _ eq ih =>
    rw [eq] at ih
    simpa using ih
  | case5 _ _ _ miss _ _ eq ih =>
    rw [eq] at ih
    rcases ih with full | none
    · exact .inl full
    refine .inr ?_
    intro other member
    rcases mem_cons.mp member with rfl | inRest
    · exact miss
    · exact none other inRest

end Collect

theorem cleanup_perm (pid : Int) (slots : List (Option Watch)) :
    ((slots.map fun slot => if enteredBy pid slot then none else slot).reduceOption
      ++ (slots.filter (enteredBy pid)).reduceOption).Perm slots.reduceOption := by
  induction slots with
  | nil => simp
  | cons slot _ ih =>
    cases slot with
    | none => simpa [enteredBy] using ih
    | some watch =>
      by_cases mine : enteredBy pid (some watch) = true
      · rw [map_cons, if_pos mine, filter_cons_of_pos mine,
          reduceOption_cons_of_none, reduceOption_cons_of_some, reduceOption_cons_of_some]
        exact perm_middle.trans (ih.cons watch)
      · rw [map_cons, if_neg mine, filter_cons_of_neg mine,
          reduceOption_cons_of_some, reduceOption_cons_of_some]
        exact ih.cons watch

end Table

/-! ### Where a watch is -/

/-- The watches in the table. -/
def used (s : State) : List Watch := s.slots.reduceOption

/-- The watches collected and not yet posted. -/
def batches (fires : List (Tid × Fire)) : List Watch :=
  fires.flatMap fun entry => entry.2.batch

/-- What the add finds under its key was entered by its own process, with its
code. -/
def OwnEntry (s : State) (add : Add) : Prop :=
  ∀ watch, findObserved s.slots add = some watch →
    watch.watcherPid = add.watcherPid ∧ watch.code = add.code

/-- Every place a watch can be in. -/
def places (s : State) : List Watch :=
  used s ++ (batches s.fires ++ (s.notified.map Prod.fst ++ s.dropped.map Prod.snd))

/-- The struct stands for a port in the table, or for one whose
`deathwatch_fire` will look at the watch table again. -/
def Expected (s : State) (p : Addr) : Prop :=
  (∃ id, s.ports.table id = some p) ∨
    ∃ t fire, (t, fire) ∈ s.fires ∧ fire.port = p ∧ fire.more = true

/-- The incarnation is still to be fired for. -/
def Awaited (s : State) (serial : Nat) : Prop :=
  ∃ p, Expected s p ∧ (s.ports.heap p).serial = serial

/-- The identity of the struct. -/
def Names (s : State) (p : Addr) (id gen serial : Nat) : Prop :=
  (s.ports.heap p).id = id ∧ (s.ports.heap p).generation = gen ∧ (s.ports.heap p).serial = serial

/-- The invariant of the death watches. -/
structure Watched (s : State) : Prop where
  ports : Port.Inv s.ports
  slotHeld : ∀ {t fire}, (t, fire) ∈ s.fires → (t, .slot fire.port) ∈ s.ports.pool
  named : ∀ {t fire}, (t, fire) ∈ s.fires →
    Names s fire.port fire.targetPort fire.targetGen fire.serial
  once : (s.fires.map fun entry => entry.2.port).Nodup
  held : ∀ watch ∈ used s, ∃ p, Expected s p ∧
    Names s p watch.targetPort watch.targetGen watch.serial
  batched : ∀ {t fire watch}, (t, fire) ∈ s.fires → watch ∈ fire.batch → watch.serial = fire.serial
  noted : ∀ {watch serial}, (watch, serial) ∈ s.notified →
    watch.serial = serial ∧ serial ∈ s.ports.destroyed
  pending : ∀ {t add}, (t, add) ∈ s.adds → s.ports.history[add.serial]? =
    some ⟨add.targetPort, add.targetGen⟩
  recorded : ∀ watch ∈ places s, s.ports.history[watch.serial]? =
    some ⟨watch.targetPort, watch.targetGen⟩
  numbers : ((places s).map Watch.number).Nodup
  bound : ∀ watch ∈ places s, watch.number < s.entered
  granted : ∀ {add watch}, (add, watch) ∈ s.granted → watch ∈ places s ∧
    watch = add.watch watch.number
  drops : ∀ {pid watch}, (pid, watch) ∈ s.dropped → watch.watcherPid = pid
  fired : ∀ serial ∈ s.fired, serial < s.ports.history.length ∧ (∀ id p, s.ports.table id = some p →
    (s.ports.heap p).serial ≠ serial) ∧ ∀ t fire, (t, fire) ∈ s.fires → fire.serial ≠ serial

theorem initial_watched : Watched initial := by
  have noPlace : places initial = [] := by simp [places, used, batches, initial]
  exact {
    ports := Port.inv_initial
    slotHeld := fun member => (nomatch member)
    named := fun member => (nomatch member)
    once := nodup_nil
    held := by
      intro watch member
      simp [used, initial] at member
    batched := fun member => (nomatch member)
    noted := fun member => (nomatch member)
    pending := fun member => (nomatch member)
    recorded := by simp [noPlace]
    numbers := by simp [noPlace]
    bound := by simp [noPlace]
    granted := fun member => (nomatch member)
    drops := fun member => (nomatch member)
    fired := fun _ member => (nomatch member) }

variable {fire : Fire}

section Preservation

variable {s : State}

section

variable (watched : Watched s)
include watched

theorem Watched.live {p : Addr} (expected : Expected s p) : Port.Live s.ports p := by
  rcases expected with ⟨id, found⟩ | ⟨t, fire, member, rfl, _⟩
  · exact watched.ports.live_of_table found
  · exact (watched.ports.counts.held t _ (watched.slotHeld member)).1

theorem Watched.fire_live {t : Tid} (member : (t, fire) ∈ s.fires) : Port.Live s.ports fire.port :=
  (watched.ports.counts.held t _ (watched.slotHeld member)).1

theorem Watched.fire_closed {t : Tid} (member : (t, fire) ∈ s.fires)
    (id : Nat) : s.ports.table id ≠ some fire.port := by
  intro found
  have closed := (watched.ports.counts.held t _ (watched.slotHeld member)).2
  have active := ((watched.ports.ownership.table_iff id _).mp found).2.2
  rw [closed] at active
  cases active

theorem Watched.replaced (s' : State) (same : (places s').Perm (places s))
    (entered : s'.entered = s.entered) (history : ∀ {serial : Nat} {incarnation : Port.Incarnation},
      s.ports.history[serial]? = some incarnation → s'.ports.history[serial]? = some incarnation) :
    (∀ watch ∈ places s', s'.ports.history[watch.serial]? =
      some ⟨watch.targetPort, watch.targetGen⟩) ∧ ((places s').map Watch.number).Nodup ∧
    (∀ watch ∈ places s', watch.number < s'.entered) ∧ ∀ {add watch}, (add, watch) ∈ s.granted →
    watch ∈ places s' ∧ watch = add.watch watch.number := by
  refine ⟨?_, ?_, ?_, ?_⟩
  · intro watch member
    exact history (watched.recorded watch (same.mem_iff.mp member))
  · exact (same.map Watch.number).nodup_iff.mpr watched.numbers
  · intro watch member
    rw [entered]
    exact watched.bound watch (same.mem_iff.mp member)
  · intro add watch member
    obtain ⟨inPlaces, stands⟩ := watched.granted member
    exact ⟨same.mem_iff.mpr inPlaces, stands⟩

theorem Watched.port {label : Port.Label} {ports : Port.State}
    (allowed : portAllowed s label = true) (taken : Port.Step s.ports label ports) :
    Watched { s with ports := ports } := by
  have notDestroy : ∀ t id, label ≠ .destroy t id := by
    rintro t id rfl
    cases allowed
  have carried := Port.step_carried watched.ports taken notDestroy
  have namesKept : ∀ {p id gen serial}, Port.Live s.ports p → Names s p id gen serial →
      Names { s with ports := ports } p id gen serial := by
    intro p id gen serial live names
    obtain ⟨sameId, sameGen, sameSerial⟩ := carried.identity live
    exact ⟨sameId.trans names.1, sameGen.trans names.2.1, sameSerial.trans names.2.2⟩
  obtain ⟨recorded, numbers, bound, granted⟩ :=
    watched.replaced { s with ports := ports } (List.Perm.refl _) rfl carried.recorded
  refine {
    ports := Port.inv_step _ _ _ watched.ports taken
    slotHeld := ?_
    named := fun member => namesKept (watched.fire_live member) (watched.named member)
    once := watched.once
    held := ?_
    batched := watched.batched
    noted := fun member => ⟨(watched.noted member).1, carried.destroyed (watched.noted member).2⟩
    pending := fun member => carried.recorded (watched.pending member)
    recorded := recorded
    numbers := numbers
    bound := bound
    granted := granted
    drops := watched.drops
    fired := ?_ }
  · intro t fire member
    refine Port.slot_kept taken (watched.slotHeld member) ?_
    rintro rfl
    have firing : s.firing t = true := any_eq_true.mpr ⟨_, member, by simp⟩
    simp [portAllowed, firing] at allowed
  · intro watch member
    obtain ⟨p, expected, names⟩ := watched.held watch member
    refine ⟨p, ?_, namesKept (watched.live expected) names⟩
    rcases expected with ⟨id, found⟩ | firing
    · exact .inl ⟨id, carried.kept found⟩
    · exact .inr firing
  intro serial member
  obtain ⟨before, notInTable, notFiring⟩ := watched.fired serial member
  refine ⟨?_, ?_, notFiring⟩
  · obtain ⟨incarnation, found⟩ : ∃ incarnation, s.ports.history[serial]? = some incarnation :=
      ⟨_, List.getElem?_eq_getElem before⟩
    exact (List.getElem?_eq_some_iff.mp (carried.recorded found)).1
  intro id p found
  rcases carried.old found with old | new
  · have live := watched.ports.live_of_table old
    rw [show ({ s with ports := ports } : State).ports.heap p =
      ports.heap p from rfl, (carried.identity live).2.2]
    exact notInTable id p old
  · exact fun same => ne_of_lt before (same.symm.trans new)

/-- The locked section of a destroy starts a `deathwatch_fire`. -/
theorem Watched.destroy (t : Tid) (id : Nat) : Watched (destroy s t id) := by
  unfold DeathWatch.destroy
  split
  · next valid =>
    split
    · exact watched
    next p found =>
    obtain ⟨_, mine, _⟩ := (watched.ports.ownership.table_iff id p).mp found
    have portsEq : Port.ipcPortDestroy s.ports t id = { s.ports with
          heap := update s.ports.heap p { s.ports.heap p with state := .closed }
          table := update s.ports.table id none
          pool := (t, .slot p) :: s.ports.pool
          destroyed := (s.ports.heap p).serial :: s.ports.destroyed } := by
      simp [Port.ipcPortDestroy, valid, found]
    have inv := watched.ports.destroy t id
    rw [portsEq] at inv ⊢
    have fields : ∀ q, (update s.ports.heap p { s.ports.heap p with state := .closed } q).id =
            (s.ports.heap q).id ∧
        (update s.ports.heap p { s.ports.heap p with state := .closed } q).generation =
            (s.ports.heap q).generation ∧
        (update s.ports.heap p { s.ports.heap p with state := .closed } q).serial =
            (s.ports.heap q).serial := by
      intro q
      by_cases same : q = p
      · subst same
        rw [update_self]
        exact ⟨rfl, rfl, rfl⟩
      · rw [update_of_ne same]
        exact ⟨rfl, rfl, rfl⟩
    have stays : ∀ {other q}, update s.ports.table id none other =
        some q → s.ports.table other = some q := by
      intro other q foundAfter
      by_cases same : other = id
      · subst same
        rw [update_self] at foundAfter
        cases foundAfter
      · rwa [update_of_ne same] at foundAfter
    constructor
    case ports => exact inv
    case slotHeld =>
      intro thread fire member
      rcases mem_cons.mp member with same | old
      · cases same
        exact mem_cons_self
      · exact mem_cons_of_mem _ (watched.slotHeld old)
    case named =>
      intro thread fire member
      rcases mem_cons.mp member with same | old
      · cases same
        obtain ⟨sameId, sameGen, sameSerial⟩ := fields p
        exact ⟨sameId.trans mine, sameGen, sameSerial⟩
      · obtain ⟨sameId, sameGen, sameSerial⟩ := fields fire.port
        obtain ⟨namedId, namedGen, namedSerial⟩ := watched.named old
        exact ⟨sameId.trans namedId, sameGen.trans namedGen, sameSerial.trans namedSerial⟩
    case once =>
      rw [map_cons, nodup_cons]
      refine ⟨?_, watched.once⟩
      intro member
      obtain ⟨⟨_, _⟩, old, same⟩ := mem_map.mp member
      refine watched.fire_closed old id ?_
      rw [found]
      exact congrArg some same.symm
    case held =>
      intro watch member
      obtain ⟨q, expected, names⟩ := watched.held watch member
      obtain ⟨sameId, sameGen, sameSerial⟩ := fields q
      refine ⟨q, ?_, sameId.trans names.1, sameGen.trans names.2.1, sameSerial.trans names.2.2⟩
      rcases expected with ⟨other, foundOther⟩ | ⟨thread, fire, old, rest⟩
      · by_cases same : other = id
        · subst same
          rw [found] at foundOther
          cases foundOther
          exact .inr ⟨t, _, mem_cons_self, rfl, rfl⟩
        · exact .inl ⟨other, (update_of_ne same _ _).trans foundOther⟩
      · exact .inr ⟨thread, fire, mem_cons_of_mem _ old, rest⟩
    case batched =>
      intro thread fire watch member inBatch
      rcases mem_cons.mp member with same | old
      · cases same
        cases inBatch
      · exact watched.batched old inBatch
    case noted =>
      intro watch serial member
      exact ⟨(watched.noted member).1, mem_cons_of_mem _ (watched.noted member).2⟩
    case pending => exact watched.pending
    case recorded => exact watched.recorded
    case numbers => exact watched.numbers
    case bound => exact watched.bound
    case granted => exact watched.granted
    case drops => exact watched.drops
    case fired =>
      intro serial member
      obtain ⟨before, notInTable, notFiring⟩ := watched.fired serial member
      refine ⟨before, ?_, ?_⟩
      · intro other q foundAfter
        rw [(fields q).2.2]
        exact notInTable other q (stays foundAfter)
      · intro thread fire isFire
        rcases mem_cons.mp isFire with same | old
        · cases same
          exact notInTable id p found
        · exact notFiring thread fire old
  · exact watched

theorem Watched.test (t : Tid) (add : Add) : Watched (testGeneration s t add) := by
  unfold testGeneration
  split
  · exact watched
  next p found =>
  split
  · exact watched
  next accepted =>
  rw [not_or, Decidable.not_not] at accepted
  have inTable : s.ports.table add.targetPort = some p := by
    unfold ipcPortGet at found
    split at found
    · split at found
      · split at found
        · cases found
        · cases found
          assumption
      · cases found
    · cases found
  obtain ⟨live, mine, _⟩ := (watched.ports.ownership.table_iff _ p).mp inTable
  have record := watched.ports.history.live_recorded p live
  rw [mine, accepted.2] at record
  refine { watched with pending := ?_ }
  intro thread other member
  rcases mem_cons.mp member with same | old
  · cases same
    exact record
  · exact watched.pending old

theorem Watched.names_of_record {p : Addr} (live : Port.Live s.ports p)
    {serial id gen : Nat} (same : (s.ports.heap p).serial = serial)
    (record : s.ports.history[serial]? = some ⟨id, gen⟩) : Names s p id gen serial := by
  have own := watched.ports.history.live_recorded p live
  rw [same, record] at own
  have fields := Option.some.inj own
  rw [Port.Incarnation.mk.injEq] at fields
  exact ⟨fields.1.symm, fields.2.symm, same⟩

theorem Watched.add {t : Tid} {add : Add}
    (member : (t, add) ∈ s.adds) (inTime : Awaited s add.serial) (own : OwnEntry s add) :
    Watched { (deathwatchAdd s add).1 with adds := s.adds.erase (t, add) } := by
  have pending : ∀ {thread other}, (thread, other) ∈ s.adds.erase (t, add) →
      s.ports.history[other.serial]? = some ⟨other.targetPort, other.targetGen⟩ :=
    fun inRest => watched.pending (mem_of_mem_erase inRest)
  unfold deathwatchAdd
  split
  · next watch found =>
    obtain ⟨present, observed⟩ := findObserved_some found
    refine { watched with pending := pending, granted := ?_ }
    intro other granted inGranted
    rcases mem_append.mp inGranted with old | new
    · exact watched.granted old
    cases mem_singleton.mp new
    refine ⟨mem_append_left _ present, ?_⟩
    -- the watch in the table is for the same id, hence the same struct
    obtain ⟨p, expected, names⟩ := watched.held watch present
    obtain ⟨q, awaited, sameSerial⟩ := inTime
    have addNames := watched.names_of_record (watched.live awaited)
      sameSerial (watched.pending member)
    simp only [Add.observed, Bool.and_eq_true, beq_iff_eq] at observed
    have samePlace : p = q := by
      refine watched.ports.live_unique (watched.live expected) (watched.live awaited) ?_
      rw [names.1, addNames.1, observed.1.2]
    have serial : watch.serial = add.serial := by rw [← names.2.2, samePlace, sameSerial]
    obtain ⟨pid, code⟩ := own watch found
    cases watch
    simp_all [Add.watch]
  split
  · exact { watched with pending := pending }
  next slots entered =>
  have perm := enter_perm entered
  let after : State := { s with
    slots := slots
    entered := s.entered + 1
    granted := s.granted ++ [(add, add.watch s.entered)]
    adds := s.adds.erase (t, add) }
  have placesPerm : (places after).Perm (add.watch s.entered :: places s) := perm.append_right _
  have record := watched.pending member
  obtain ⟨p, expected, sameSerial⟩ := inTime
  refine { watched with
    held := ?_, pending := pending, recorded := ?_, numbers := ?_,
    bound := ?_, granted := ?_ }
  · intro watch inUsed
    rcases mem_cons.mp (perm.mem_iff.mp inUsed) with rfl | old
    · exact ⟨p, expected, watched.names_of_record (watched.live expected) sameSerial record⟩
    · exact watched.held watch old
  · intro watch inPlaces
    rcases mem_cons.mp (placesPerm.mem_iff.mp inPlaces) with rfl | old
    · exact record
    · exact watched.recorded watch old
  · refine (placesPerm.map Watch.number).nodup_iff.mpr ?_
    rw [map_cons, nodup_cons]
    refine ⟨?_, watched.numbers⟩
    intro taken
    obtain ⟨watch, inPlaces, same⟩ := mem_map.mp taken
    exact ne_of_lt (watched.bound watch inPlaces) same
  · intro watch inPlaces
    rcases mem_cons.mp (placesPerm.mem_iff.mp inPlaces) with rfl | old
    · exact Nat.lt_add_one _
    · exact Nat.lt_succ_of_lt (watched.bound watch old)
  · intro other watch inGranted
    rcases mem_append.mp inGranted with old | new
    · obtain ⟨inPlaces, stands⟩ := watched.granted old
      exact ⟨placesPerm.mem_iff.mpr (mem_cons_of_mem _ inPlaces), stands⟩
    · cases mem_singleton.mp new
      exact ⟨placesPerm.mem_iff.mpr mem_cons_self, rfl⟩

end

theorem mem_setFire {t thread : Tid} {after other : Fire}
    (member : (thread, other) ∈ (s.setFire t fire after).fires) :
    (thread = t ∧ other = after) ∨ (thread, other) ∈ s.fires := by
  rcases mem_cons.mp member with same | old
  · cases same
    exact .inl ⟨rfl, rfl⟩
  · exact .inr (mem_of_mem_erase old)

theorem Expected.setFire {t : Tid} {after : Fire} {p : Addr}
    (expected : Expected s p) (samePort : after.port = fire.port) (again : fire.port = p →
    fire.more = true → after.more = true) : Expected (s.setFire t fire after) p := by
  rcases expected with inTable | ⟨thread, other, member, port, more⟩
  · exact .inl inTable
  by_cases same : (thread, other) = (t, fire)
  · cases same
    exact .inr ⟨t, after, mem_cons_self, samePort.trans port, again port more⟩
  · exact .inr ⟨thread, other, mem_cons_of_mem _ ((mem_erase_of_ne same).mpr member), port, more⟩

theorem Watched.setFire (watched : Watched s) {t : Tid} (after : Fire)
    (member : (t, fire) ∈ s.fires) (samePort : after.port = fire.port)
    (sameTarget : after.targetPort = fire.targetPort) (sameGen : after.targetGen = fire.targetGen)
    (sameSerial : after.serial = fire.serial) :
    (∀ {thread other}, (thread, other) ∈ (s.setFire t fire after).fires →
      (thread, .slot other.port) ∈ s.ports.pool ∧
        Names s other.port other.targetPort other.targetGen other.serial) ∧
    ((s.setFire t fire after).fires.map fun entry => entry.2.port).Nodup ∧
    ∀ {serial}, serial ∈ s.fired →
    ∀ thread other, (thread, other) ∈ (s.setFire t fire after).fires → other.serial ≠ serial := by
  refine ⟨?_, ?_, ?_⟩
  · intro thread other inFires
    rcases mem_setFire inFires with ⟨rfl, rfl⟩ | old
    · rw [samePort, sameTarget, sameGen, sameSerial]
      exact ⟨watched.slotHeld member, watched.named member⟩
    · exact ⟨watched.slotHeld old, watched.named old⟩
  · have perm := (perm_cons_erase member).map fun entry : Tid × Fire => entry.2.port
    have nodup := perm.nodup_iff.mp watched.once
    simp only [State.setFire, map_cons, samePort]
    exact nodup
  · intro serial inFired thread other inFires
    rcases mem_setFire inFires with ⟨_, rfl⟩ | old
    · rw [sameSerial]
      exact (watched.fired serial inFired).2.2 t fire member
    · exact (watched.fired serial inFired).2.2 thread other old

theorem batches_setFire {t : Tid} {after : Fire} {moved : List Watch} (member : (t, fire) ∈ s.fires)
    (batch : (moved ++ after.batch).Perm fire.batch) :
    (moved ++ batches (s.setFire t fire after).fires).Perm (batches s.fires) := by
  have perm := (perm_cons_erase member).flatMap_right fun entry : Tid × Fire => entry.2.batch
  refine List.Perm.trans ?_ perm.symm
  rw [batches, State.setFire, flatMap_cons, ← append_assoc]
  exact batch.append_right _

/-- A collection: the watches it takes are of the incarnation that died, and
the last one leaves none of them behind. -/
theorem Watched.collect (watched : Watched s) {t : Tid}
    (member : (t, fire) ∈ s.fires) (empty : fire.batch = []) :
    Watched { s.setFire t fire { fire with
        batch := (collect fire.targetPort fire.targetGen batchMax s.slots).1
        more := decide ((collect fire.targetPort fire.targetGen batchMax
          s.slots).1.length = batchMax) } with
      slots := (collect fire.targetPort fire.targetGen batchMax s.slots).2 } := by
  have perm := collect_perm fire.targetPort fire.targetGen batchMax s.slots
  have matching := collect_matching fire.targetPort fire.targetGen batchMax s.slots
  have rest := collect_rest fire.targetPort fire.targetGen batchMax s.slots
  generalize DeathWatch.collect fire.targetPort fire.targetGen batchMax s.slots = outcome at *
  obtain ⟨batch, slots⟩ := outcome
  generalize afterEq : ({ fire with
    batch := batch, more := decide (batch.length = batchMax) } : Fire) = after
  have batchEq : after.batch = batch := by rw [← afterEq]
  have moreEq : after.more = decide (batch.length = batchMax) := by rw [← afterEq]
  have samePort : after.port = fire.port := by rw [← afterEq]
  obtain ⟨fireData, once, notFired⟩ := watched.setFire after member samePort
    (show after.targetPort = fire.targetPort by rw [← afterEq])
    (show after.targetGen = fire.targetGen by rw [← afterEq])
    (show after.serial = fire.serial by rw [← afterEq])
  have fireNames := watched.named member
  have usedBefore : ∀ watch, watch ∈ batch ∨ watch ∈ slots.reduceOption → watch ∈ used s := by
    intro watch inEither
    refine perm.mem_iff.mp (mem_append.mpr inEither)
  have placesPerm : (places { s.setFire t fire after with slots := slots }).Perm (places s) := by
    have batchesPerm : (batches s.fires).Perm (batches (s.fires.erase (t, fire))) := by
      have moved := (perm_cons_erase member).flatMap_right fun entry : Tid × Fire => entry.2.batch
      rw [flatMap_cons, empty, nil_append] at moved
      exact moved
    have shape : places { s.setFire t fire after with slots := slots } =
        slots.reduceOption ++ ((batch ++ batches (s.fires.erase (t, fire))) ++
          (s.notified.map Prod.fst ++ s.dropped.map Prod.snd)) := by
      simp [places, used, batches, State.setFire, batchEq]
    have swap : (slots.reduceOption ++ (batch ++ batches (s.fires.erase (t, fire)))).Perm
        (used s ++ batches s.fires) := by
      rw [← append_assoc]
      refine List.Perm.append ?_ batchesPerm.symm
      exact perm_append_comm.trans perm
    rw [shape, places, ← append_assoc, ← append_assoc (used s)]
    exact swap.append_right _
  obtain ⟨recorded, numbers, bound, granted⟩ :=
    watched.replaced { s.setFire t fire after with slots := slots } placesPerm rfl id
  refine {
    ports := watched.ports
    slotHeld := fun inFires => (fireData inFires).1
    named := fun inFires => (fireData inFires).2
    once := once
    held := ?_
    batched := ?_
    noted := watched.noted
    pending := watched.pending
    recorded := recorded
    numbers := numbers
    bound := bound
    granted := granted
    drops := watched.drops
    fired := fun serial inFired =>
      ⟨(watched.fired serial inFired).1, (watched.fired serial inFired).2.1, notFired inFired⟩ }
  · intro watch inSlots
    obtain ⟨p, expected, names⟩ := watched.held watch (usedBefore watch (.inr inSlots))
    refine ⟨p, expected.setFire samePort ?_, names⟩
    intro port _
    rw [moreEq, decide_eq_true_iff]
    rcases rest with full | none
    · exact full
    refine absurd ⟨?_, ?_⟩ (none watch inSlots)
    · rw [← names.1, ← port, fireNames.1]
    · rw [← names.2.1, ← port, fireNames.2.1]
  · intro thread other watch inFires inBatch
    rcases mem_setFire inFires with ⟨rfl, rfl⟩ | old
    · rw [batchEq] at inBatch
      obtain ⟨sameTarget, _⟩ := matching watch inBatch
      obtain ⟨p, expected, names⟩ := watched.held watch (usedBefore watch (.inl inBatch))
      have samePlace : p = fire.port := by
        refine watched.ports.live_unique (watched.live expected) (watched.fire_live member) ?_
        rw [names.1, fireNames.1, sameTarget]
      rw [← names.2.2, samePlace, fireNames.2.2, ← afterEq]
    · exact watched.batched old inBatch

theorem Watched.post (watched : Watched s) {t : Tid} {watch : Watch} {rest : List Watch}
    (member : (t, fire) ∈ s.fires) (batch : fire.batch = watch :: rest) :
    Watched { s.setFire t fire { fire with batch := rest } with
      notified := s.notified ++ [(watch, fire.serial)] } := by
  have own : watch.serial = fire.serial :=
    watched.batched member (by rw [batch]; exact mem_cons_self)
  obtain ⟨fireData, once, notFired⟩ :=
    watched.setFire { fire with batch := rest } member rfl rfl rfl rfl
  have placesPerm : (places { s.setFire t fire { fire with batch := rest } with
      notified := s.notified ++ [(watch, fire.serial)] }).Perm (places s) := by
    have moved : ([watch] ++ batches (s.setFire t fire
        { fire with batch := rest }).fires).Perm (batches s.fires) := by
      refine batches_setFire member ?_
      rw [batch]
      exact List.Perm.refl _
    refine List.Perm.append_left _ ?_
    rw [map_append, map_singleton, append_assoc]
    refine List.Perm.trans ?_ (moved.append_right _)
    exact (perm_middle.append_left _).trans perm_middle
  obtain ⟨recorded, numbers, bound, granted⟩ := watched.replaced _ placesPerm rfl id
  refine {
    ports := watched.ports
    slotHeld := fun inFires => (fireData inFires).1
    named := fun inFires => (fireData inFires).2
    once := once
    held := ?_
    batched := ?_
    noted := ?_
    pending := watched.pending
    recorded := recorded
    numbers := numbers
    bound := bound
    granted := granted
    drops := watched.drops
    fired := fun serial inFired =>
      ⟨(watched.fired serial inFired).1, (watched.fired serial inFired).2.1, notFired inFired⟩ }
  · intro other inUsed
    obtain ⟨p, expected, names⟩ := watched.held other inUsed
    exact ⟨p, expected.setFire rfl fun _ more => more, names⟩
  · intro thread other collected inFires inBatch
    rcases mem_setFire inFires with ⟨_, same⟩ | old
    · subst same
      have inWhole : collected ∈ fire.batch := by
        rw [batch]
        exact mem_cons_of_mem _ inBatch
      have sameSerial := watched.batched member inWhole
      exact sameSerial
    · exact watched.batched old inBatch
  · intro other serial inNotified
    rcases mem_append.mp inNotified with old | new
    · exact watched.noted old
    cases mem_singleton.mp new
    have closed := (watched.ports.counts.held t _ (watched.slotHeld member)).2
    have dead := watched.ports.history.closed_destroyed _ (watched.fire_live member) closed
    rw [(watched.named member).2.2] at dead
    exact ⟨own, dead⟩

theorem Watched.done (watched : Watched s) {t : Tid} (member : (t, fire) ∈ s.fires)
    (empty : fire.batch = []) (last : fire.more = false) :
    Watched { s with fires := s.fires.erase (t, fire), fired := fire.serial :: s.fired } := by
  have fireNames := watched.named member
  have fireLive := watched.fire_live member
  have perm := perm_cons_erase member
  have placesPerm : (places { s with
      fires := s.fires.erase (t, fire)
      fired := fire.serial :: s.fired }).Perm (places s) := by
    have moved := perm.flatMap_right fun entry : Tid × Fire => entry.2.batch
    rw [flatMap_cons, empty, nil_append] at moved
    exact List.Perm.append_left _ (moved.symm.append_right _)
  obtain ⟨recorded, numbers, bound, granted⟩ := watched.replaced _ placesPerm rfl id
  have once := (perm.map fun entry : Tid × Fire => entry.2.port).nodup_iff.mp watched.once
  rw [map_cons, nodup_cons] at once
  refine {
    ports := watched.ports
    slotHeld := fun inFires => watched.slotHeld (mem_of_mem_erase inFires)
    named := fun inFires => watched.named (mem_of_mem_erase inFires)
    once := once.2
    held := ?_
    batched := fun inFires => watched.batched (mem_of_mem_erase inFires)
    noted := watched.noted
    pending := watched.pending
    recorded := recorded
    numbers := numbers
    bound := bound
    granted := granted
    drops := watched.drops
    fired := ?_ }
  · intro watch inUsed
    obtain ⟨p, expected, names⟩ := watched.held watch inUsed
    refine ⟨p, ?_, names⟩
    rcases expected with inTable | ⟨thread, other, inFires, port, more⟩
    · exact .inl inTable
    have different : (thread, other) ≠ (t, fire) := by
      rintro same
      cases same
      rw [last] at more
      cases more
    exact .inr ⟨thread, other, (mem_erase_of_ne different).mpr inFires, port, more⟩
  · intro serial inFired
    rcases mem_cons.mp inFired with rfl | old
    · have record := watched.ports.history.live_recorded _ fireLive
      rw [fireNames.2.2] at record
      refine ⟨(List.getElem?_eq_some_iff.mp record).1, ?_, ?_⟩
      · intro id p found same
        have samePlace : p = fire.port :=
          watched.ports.serial_unique (watched.ports.live_of_table found)
            fireLive (same.trans fireNames.2.2.symm)
        rw [samePlace] at found
        exact watched.fire_closed member id found
      · intro thread other inFires same
        have inAll := mem_of_mem_erase inFires
        have samePlace : other.port = fire.port := by
          refine watched.ports.serial_unique (watched.fire_live inAll) fireLive ?_
          rw [(watched.named inAll).2.2, fireNames.2.2, same]
        exact once.1 (mem_map.mpr ⟨_, inFires, samePlace⟩)
    · obtain ⟨before, notInTable, notFiring⟩ := watched.fired serial old
      exact ⟨before, notInTable, fun thread other inFires =>
        notFiring thread other (mem_of_mem_erase inFires)⟩

theorem Watched.cleanup (watched : Watched s) (pid : Int) :
    Watched { s with
      slots := s.slots.map fun slot => if enteredBy pid slot then none else slot
      dropped := s.dropped ++ (s.slots.filter (enteredBy pid)).reduceOption.map (pid, ·) } := by
  have perm := cleanup_perm pid s.slots
  have placesPerm : (places { s with
      slots := s.slots.map fun slot => if enteredBy pid slot then none else slot
      dropped := s.dropped ++
        (s.slots.filter (enteredBy pid)).reduceOption.map (pid, ·) }).Perm (places s) := by
    unfold places used
    have again : ∀ gone : List Watch, (gone.map (pid, ·)).map Prod.snd = gone := fun gone => by
      rw [List.map_map]
      exact map_id gone
    rw [map_append, again]
    generalize (s.slots.map fun slot =>
      if enteredBy pid slot then none else slot).reduceOption = kept at *
    generalize (s.slots.filter (enteredBy pid)).reduceOption = gone at *
    refine List.Perm.trans ?_ (perm.append_right _)
    rw [append_assoc]
    refine List.Perm.append_left kept ?_
    rw [← append_assoc, ← append_assoc, ← append_assoc]
    refine perm_append_comm.trans ?_
    rw [append_assoc, append_assoc]
  obtain ⟨recorded, numbers, bound, granted⟩ := watched.replaced _ placesPerm rfl id
  refine { watched with
    held := ?_, recorded := recorded, numbers := numbers, bound := bound,
    granted := granted, drops := ?_ }
  · intro watch inUsed
    exact watched.held watch (perm.mem_iff.mp (mem_append_left _ inUsed))
  · intro other watch inDropped
    rcases mem_append.mp inDropped with old | new
    · exact watched.drops old
    obtain ⟨_, gone, same⟩ := mem_map.mp new
    cases same
    have entered := (mem_filter.mp (reduceOption_mem_iff.mp gone)).2
    simpa [enteredBy] using entered

end Preservation

/-! ### Runs -/

/-- An add enters its watch while its incarnation is still to be fired for, or
finds one that its own process entered with the same code, and
`ipc_post_kernel` takes every notification. -/
def InTime (s : State) : Label → Prop
  | .add _ add => Awaited s add.serial ∧ OwnEntry s add
  | .post _ _ taken => taken = true
  | _ => True

theorem step_watched {first last : State} {label : Label} (watched : Watched first)
    (taken : Guarded step InTime first label last) : Watched last := by
  obtain ⟨taken, inTime⟩ := taken
  unfold step at taken
  cases label with
  | port =>
    simp only [exec, ite_none_right_eq_some] at taken
    obtain ⟨allowed, moved⟩ := taken
    obtain ⟨_, portStep, rfl⟩ := map_eq_some_iff.mp moved
    exact watched.port allowed portStep
  | destroy t id =>
    simp only [exec] at taken
    split at taken
    · cases taken
    · cases taken
      exact watched.destroy t id
  | test t add =>
    cases taken
    exact watched.test t add
  | add _ add =>
    simp only [exec, ite_none_right_eq_some, Option.some.injEq] at taken
    obtain ⟨member, rfl⟩ := taken
    exact watched.add member inTime.1 inTime.2
  | collect =>
    simp only [exec, ite_none_right_eq_some, Option.some.injEq] at taken
    obtain ⟨⟨member, empty, _⟩, rfl⟩ := taken
    exact watched.collect member empty
  | post _ _ isTaken =>
    simp only [exec] at taken
    split at taken
    · cases taken
    next watch rest batch =>
    simp only [ite_none_right_eq_some, Option.some.injEq] at taken
    obtain ⟨member, rfl⟩ := taken
    have isTrue : isTaken = true := inTime
    subst isTrue
    exact watched.post member batch
  | done =>
    simp only [exec, ite_none_right_eq_some, Option.some.injEq] at taken
    obtain ⟨⟨member, empty, last⟩, rfl⟩ := taken
    exact watched.done member empty last
  | cleanup pid =>
    cases taken
    exact watched.cleanup pid

/-- What the death watches promise in a state: an add that answered 0 stands
for a watch of its process, with its port, code and target, on the incarnation
it met; a notification is for the dead incarnation of its watch, at most one
for each watch; and once `deathwatch_fire` has returned for the incarnation it
is exactly one, unless the process of the add itself was cleaned up. -/
structure WatchContract (s : State) : Prop where
  stands : ∀ add watch, (add, watch) ∈ s.granted → watch = add.watch watch.number ∧
      s.ports.history[watch.serial]? = some ⟨add.targetPort, add.targetGen⟩
  own : ∀ watch serial, (watch, serial) ∈ s.notified →
    watch.serial = serial ∧ serial ∈ s.ports.destroyed
  atMostOnce : ∀ watch, (s.notified.map Prod.fst).count watch ≤ 1
  once : ∀ add watch, (add, watch) ∈ s.granted → watch.serial ∈ s.fired →
    (add.watcherPid, watch) ∈ s.dropped ∨ (s.notified.map Prod.fst).count watch = 1

theorem Watched.settled {s : State} (watched : Watched s) {watch : Watch}
    (inPlaces : watch ∈ places s) (fired : watch.serial ∈ s.fired) :
    watch ∈ s.notified.map Prod.fst ∨ watch ∈ s.dropped.map Prod.snd := by
  obtain ⟨_, notInTable, notFiring⟩ := watched.fired _ fired
  rcases mem_append.mp inPlaces with inUsed | elsewhere
  · obtain ⟨p, expected, names⟩ := watched.held watch inUsed
    rcases expected with ⟨id, found⟩ | ⟨t, fire, member, rfl, _⟩
    · exact absurd names.2.2 (notInTable id p found)
    · have same := (watched.named member).2.2.symm.trans names.2.2
      exact absurd same (notFiring t fire member)
  · rcases mem_append.mp elsewhere with inBatch | done
    · obtain ⟨⟨t, fire⟩, member, collected⟩ := mem_flatMap.mp inBatch
      exact absurd (watched.batched member collected).symm (notFiring t fire member)
    · exact mem_append.mp done

theorem Watched.contract {s : State} (watched : Watched s) : WatchContract s := by
  have distinct : (s.notified.map Prod.fst).Nodup := by
    have all : (places s).Nodup := watched.numbers.of_map
    have rest := (nodup_append.mp (nodup_append.mp all).2.1).2.1
    exact (nodup_append.mp rest).1
  constructor
  case stands =>
    intro add watch granted
    obtain ⟨inPlaces, same⟩ := watched.granted granted
    refine ⟨same, ?_⟩
    rw [watched.recorded watch inPlaces, same]
    rfl
  case own => exact fun watch serial => watched.noted
  case atMostOnce => exact fun watch => nodup_iff_count_le_one.mp distinct watch
  case once =>
    intro add watch granted fired
    rcases watched.settled (watched.granted granted).1 fired with
      notified | dropped
    · exact .inr (count_eq_one_of_mem distinct notified)
    · obtain ⟨⟨pid, watch⟩, member, rfl⟩ := mem_map.mp dropped
      have owner : watch.watcherPid = add.watcherPid :=
        congrArg Watch.watcherPid (watched.granted granted).2
      exact .inl (owner ▸ watched.drops member ▸ member)

/-- In every run in which each add enters its watch before the last collection
for its incarnation or finds one that its own process entered with its code,
and every notification finds room, the death watches keep their contract. -/
theorem death_watch_contract (labels : List Label) (s : State)
    (run : Steps (Guarded step InTime) initial labels s) : WatchContract s :=
  (run.invariant (fun _ _ _ watched taken => step_watched watched taken) initial_watched).contract

/-! ### Two runs -/

section Free

variable (n : Nat)

theorem collect_free (targetPort targetGen count : Nat) : collect targetPort targetGen
    (count + 1) (List.replicate n none) = ([], List.replicate n none) := by
  induction n with
  | zero => rfl
  | succ _ ih => rw [replicate_succ, collect, ih]

theorem findObserved_free (add : Add) : findObserved (List.replicate n none) add = none := by
  rw [findObserved, List.findSome?_eq_none_iff]
  intro slot member
  rw [eq_of_mem_replicate member]
  rfl

end Free

/-- The ports once port 1 has been created in block 64; kept folded, the free
list behind it has 4094 ids. -/
@[irreducible] def onePort : Port.State := Port.ipcPortCreate Port.initial 7 (some 64)

/-- The empty watch table. -/
def noWatch : List (Option Watch) := List.replicate deathwatchMax none

/-- A watch on the first incarnation of port 1. -/
def firstAdd : Add := ⟨5, 9, 3, 1, 1, 0⟩

/-- The fire of the first incarnation of port 1. -/
def firstFire (batch : List Watch) (more : Bool) : Fire :=
  ⟨64, 1, 1, 0, batch, more⟩

theorem onePort_found : ipcPortGet onePort 1 = some 64 ∧ onePort.table 1 = some 64 ∧
    (onePort.heap 64).generation = 1 ∧ (onePort.heap 64).serial = 0 := by
  decide +kernel

theorem tested_run : Steps (Guarded step InTime) initial [.port (.create 0 7 (some 64)),
    .test 1 firstAdd] ⟨onePort, noWatch, [(1, firstAdd)], [], 0, [], [], [], []⟩ := by
  obtain ⟨found, _, generation, serial⟩ := onePort_found
  have created : Guarded step InTime initial (.port (.create 0 7 (some 64)))
      ⟨onePort, noWatch, [], [], 0, [], [], [], []⟩ := by
    unfold onePort
    exact ⟨rfl, trivial⟩
  refine .cons created (.single ⟨?_, trivial⟩)
  simp [step, exec, testGeneration, found, generation, serial, firstAdd]

section Alone

/-! The steps of a state in which only one call of a kind is in progress. -/

variable {s : State} {t : Tid}

theorem add_alone {add : Add} {slots : List (Option Watch)}
    (only : s.adds = [(t, add)]) (free : findObserved s.slots add = none)
    (entered : enter (add.watch s.entered) s.slots = some slots) :
    step s (.add t add) { s with
      slots := slots
      adds := []
      entered := s.entered + 1
      granted := s.granted ++ [(add, add.watch s.entered)] } := by
  simp [step, exec, only, deathwatchAdd, free, entered]

theorem collect_alone {batch : List Watch} {slots : List (Option Watch)}
    (only : s.fires = [(t, fire)]) (empty : fire.batch = []) (more : fire.more = true)
    (collected : collect fire.targetPort fire.targetGen batchMax s.slots = (batch, slots)) :
    step s (.collect t fire) { s with
      slots := slots
      fires := [(t, { fire with batch := batch, more := decide (batch.length = batchMax) })] } := by
  simp [step, exec, only, empty, more, collected, State.setFire]

theorem post_alone {watch : Watch} {rest : List Watch}
    (only : s.fires = [(t, fire)]) (batch : fire.batch = watch :: rest) :
    step s (.post t fire true) { s with
      fires := [(t, { fire with batch := rest })]
      notified := s.notified ++ [(watch, fire.serial)] } := by
  simp [step, exec, only, batch, State.setFire]

theorem done_alone (only : s.fires = [(t, fire)]) (empty : fire.batch = [])
    (last : fire.more = false) :
    step s (.done t fire) { s with fires := [], fired := fire.serial :: s.fired } := by
  simp [step, exec, only, empty, last]

theorem destroy_alone (ports : s.ports = onePort) (idle : s.fires = []) :
    step s (.destroy 0 1) { s with
      ports := Port.ipcPortDestroy onePort 0 1
      fires := [(0, firstFire [] true)] } := by
  obtain ⟨_, found, generation, serial⟩ := onePort_found
  simp [step, exec, destroy, State.firing, idle, ports, found, generation,
    serial, firstFire, show Port.validId 1 = true from rfl]

end Alone

theorem noWatch_free : findObserved noWatch firstAdd = none ∧
    collect 1 1 batchMax noWatch = ([], noWatch) ∧ ∃ rest, enter (firstAdd.watch 0) noWatch = some
    (some (firstAdd.watch 0) :: rest) ∧ collect 1 1 batchMax (some (firstAdd.watch 0) :: rest) =
        ([firstAdd.watch 0], none :: rest) := by
  refine ⟨findObserved_free _ _, collect_free _ _ _ _, List.replicate 8191 none, ?_, ?_⟩
  · rw [noWatch, show deathwatchMax = 8191 + 1 from rfl, replicate_succ, enter]
  · rw [show batchMax = 15 + 1 from rfl, collect, show 15 = 14 + 1 from rfl, collect_free]
    rfl

/-- Port 1 is created, watched and destroyed. -/
def watchedDeath : List Label :=
  [.port (.create 0 7 (some 64)), .test 1 firstAdd] ++
    [.add 1 firstAdd, .destroy 0 1, .collect 0 (firstFire [] true),
      .post 0 (firstFire [firstAdd.watch 0] false) true, .done 0 (firstFire [] false)]

theorem death_watch_contract_watchedDeath :
    ∃ s, Steps (Guarded step InTime) initial watchedDeath s ∧
      s.fired = [0] ∧ s.granted = [(firstAdd, firstAdd.watch 0)] ∧
      (s.notified.map Prod.fst).count (firstAdd.watch 0) = 1 := by
  obtain ⟨found, inTable, generation, serial⟩ := onePort_found
  obtain ⟨free, _, rest, entered, collected⟩ := noWatch_free
  have tested := tested_run
  generalize noWatch = table at tested free entered
  let tested' : State := ⟨onePort, table, [(1, firstAdd)], [], 0, [], [], [], []⟩
  have awaited : InTime tested' (.add 1 firstAdd) := by
    refine ⟨⟨64, .inl ⟨1, inTable⟩, serial⟩, fun watch found => ?_⟩
    rw [free] at found
    cases found
  have added := add_alone (s := tested') rfl free entered
  have destroyed := destroy_alone (s := { tested' with
    slots := some (firstAdd.watch 0) :: rest
    adds := []
    entered := 1
    granted := [(firstAdd, firstAdd.watch 0)] }) rfl rfl
  have run := tested.append (.cons ⟨added, awaited⟩ (.cons ⟨destroyed, trivial⟩
    (.cons ⟨collect_alone rfl rfl rfl collected, trivial⟩ (.cons ⟨post_alone rfl rfl, rfl⟩
        (.single ⟨done_alone rfl rfl rfl, trivial⟩)))))
  refine ⟨_, run, rfl, rfl, ?_⟩
  have contract := death_watch_contract watchedDeath _ run
  exact (contract.once firstAdd _ mem_cons_self mem_cons_self).resolve_left not_mem_nil

/-- The add is granted, the port is destroyed and fired for, and nobody is
notified: the watch was entered after the collection. -/
theorem death_watch_lost : ∃ labels s, Steps step initial labels s ∧
    ¬ WatchContract s ∧ s.granted = [(firstAdd, firstAdd.watch 0)] ∧
      s.fired = [0] ∧ s.notified = [] ∧ s.dropped = [] := by
  obtain ⟨free, collected, _, entered, _⟩ := noWatch_free
  have tested := Steps.of_guarded tested_run
  generalize noWatch = table at tested free collected entered
  have destroyed := destroy_alone
    (s := ⟨onePort, table, [(1, firstAdd)], [], 0, [], [], [], []⟩) rfl rfl
  have run := tested.append (.cons destroyed (.cons (collect_alone rfl rfl rfl collected)
      (.cons (done_alone rfl rfl rfl) (.single (add_alone rfl free entered)))))
  refine ⟨_, _, run, ?_, rfl, rfl, rfl, rfl⟩
  intro contract
  rcases contract.once firstAdd _ mem_cons_self mem_cons_self with
    dropped | notified
  · cases dropped
  · cases notified

end MainDob.Kernel.DeathWatch
