/-
Purpose: Asynchronous queues keep their messages: first in, first out, each delivered once and as
  it was posted, with the entries conserved through magazines, depot, reserve, queues and hands.
Main exports: Inv, Inv.step, async_queue_contract
-/
import Mathlib.Data.List.Nodup
import MainDob.Kernel.MsgEntry
import MainDob.Lib.Counting

namespace MainDob.Kernel.MsgEntry

open Lib
open Post (Message IpcStatus portQueueMax)
open List Option Function

/-! ### The pools -/

/-- The counter of a chain is its length. -/
def Stock.Counted (stock : Stock) : Prop := stock.n = stock.entries.length

theorem Stock.Counted.push {stock : Stock} (counted : stock.Counted)
    (entry : EntryRef) : (stock.push entry).Counted :=
  congrArg (· + 1) counted

variable {entry : EntryRef} {rest : List EntryRef}

theorem Stock.Counted.tail {stock : Stock} (counted : stock.Counted)
    (chain : stock.entries = entry :: rest) :
    Stock.Counted { entries := rest, n := stock.n - 1 } := by
  unfold Stock.Counted at counted ⊢
  rw [chain, length_cons] at counted
  exact counted ▸ rfl

section

variable (more : Stock → Stock → Bool)
include more

theorem moveWhile_perm (times : Nat) :
    ∀ source target : Stock, ((moveWhile more times source target).1.entries ++
          (moveWhile more times source target).2.entries).Perm
        (source.entries ++ target.entries) := by
  induction times with
  | zero => exact fun source target => .refl _
  | succ _ ih =>
    intro source target
    rw [moveWhile]
    split
    · cases chain : source.entries with
      | nil => rw [chain]
      | cons => exact (ih _ _).trans perm_middle
    · exact .refl _

theorem moveWhile_counted (times : Nat) : ∀ source target :
    Stock, source.Counted → target.Counted → (moveWhile more times source target).1.Counted ∧
        (moveWhile more times source target).2.Counted ∧
        (moveWhile more times source target).1.n ≤ source.n := by
  induction times with
  | zero => exact fun source target one two => ⟨one, two, Nat.le_refl _⟩
  | succ _ ih =>
    intro source target one two
    rw [moveWhile]
    split
    · cases chain : source.entries with
      | nil => exact ⟨one, two, Nat.le_refl _⟩
      | cons entry =>
        obtain ⟨first, second, fewer⟩ := ih _ _ (one.tail chain) (two.push entry)
        exact ⟨first, second, Nat.le_trans fewer (Nat.sub_le _ _)⟩
    · exact ⟨one, two, Nat.le_refl _⟩

theorem moveWhile_keeps (times : Nat) :
    ∀ source target : Stock, target.entries <:+ (moveWhile more times source target).2.entries := by
  induction times with
  | zero => exact fun source target => suffix_refl _
  | succ _ ih =>
    intro source target
    rw [moveWhile]
    split
    · cases chain : source.entries with
      | nil => exact suffix_refl _
      | cons entry => exact (suffix_cons entry _).trans (ih _ (target.push entry))
    · exact suffix_refl _

theorem moveWhile_limit (times : Nat) :
    ∀ source target : Stock, (moveWhile more times source target).2.n ≤ target.n + times := by
  induction times with
  | zero => exact fun source target => Nat.le_refl _
  | succ _ ih =>
    intro source target
    rw [moveWhile]
    split
    · cases chain : source.entries with
      | nil => exact Nat.le_add_right _ _
      | cons =>
        refine Nat.le_trans (ih _ _) ?_
        simp only [Stock.push]
        omega
    · exact Nat.le_add_right _ _

end

theorem moveWhile_capped {more : Stock → Stock → Bool} {cap : Nat}
    (stops : ∀ source target, more source target = true → target.n < cap) (times : Nat) :
    ∀ source target : Stock, target.n ≤ cap → (moveWhile more times source target).2.n ≤ cap := by
  induction times with
  | zero => exact fun source target room => room
  | succ _ ih =>
    intro source target room
    rw [moveWhile]
    split
    · rename_i going
      cases chain : source.entries with
      | nil => exact room
      | cons => exact ih _ _ (stops source target going)
    · exact room

/-- A pool with a right counter within its bound. -/
structure Stock.Sound (stock : Stock) (cap : Nat) : Prop where
  counted : stock.n = stock.entries.length
  bound : stock.n ≤ cap

theorem Stock.Sound.tail {stock : Stock} {cap : Nat} (sound : stock.Sound cap)
    (chain : stock.entries = entry :: rest) :
    Stock.Sound { entries := rest, n := stock.n - 1 } cap :=
  ⟨Stock.Counted.tail sound.counted chain, Nat.le_trans (Nat.sub_le _ _) sound.bound⟩

theorem entryAlloc_perm (magazine depot : Stock) :
    ((entryAlloc magazine depot).1.toList ++ (entryAlloc magazine depot).2.1.entries ++
        (entryAlloc magazine depot).2.2.entries).Perm (magazine.entries ++ depot.entries) := by
  unfold entryAlloc
  cases chain : magazine.entries with
  | cons => exact .refl _
  | nil =>
    have moved := moveWhile_perm (fun source _ => !source.entries.isEmpty)
      ipcMagBatch depot magazine
    rw [chain, append_nil] at moved
    simp only [refillMagazine]
    generalize moveWhile (fun source _ => !source.entries.isEmpty)
      ipcMagBatch depot magazine = result at moved ⊢
    cases filled : result.2.entries with
    | nil =>
      simpa [filled] using moved
    | cons =>
      rw [filled] at moved
      exact perm_append_comm.trans moved

theorem entryAlloc_none_iff (magazine depot : Stock) :
    (entryAlloc magazine depot).1 = none ↔ magazine.entries = [] ∧ depot.entries = [] := by
  unfold entryAlloc
  cases chain : magazine.entries with
  | cons => simp
  | nil =>
    have batch : ipcMagBatch = 31 + 1 := rfl
    simp only [refillMagazine, true_and, batch]
    cases stored : depot.entries with
    | nil =>
      rw [moveWhile, if_neg (by simp [stored])]
      simp [chain]
    | cons entry rest =>
      have kept := moveWhile_keeps (fun source _ => !source.entries.isEmpty)
        31 { entries := rest, n := depot.n - 1 } (magazine.push entry)
      rw [moveWhile, if_pos (by simp [stored]), stored]
      dsimp only
      generalize moveWhile (fun source _ => !source.entries.isEmpty) 31
        { entries := rest, n := depot.n - 1 } (magazine.push entry) = result
        at kept ⊢
      cases top : result.2.entries with
      | cons => simp
      | nil =>
        rw [top] at kept
        simp [Stock.push] at kept

variable {magazine : Stock}

theorem entryAlloc_sound {depot : Stock} (magazineSound : magazine.Sound ipcMagCap)
    (depotSound : depot.Sound ipcDepotCacheMax) : (entryAlloc magazine depot).2.1.Sound ipcMagCap ∧
      (entryAlloc magazine depot).2.2.Sound ipcDepotCacheMax := by
  unfold entryAlloc
  cases chain : magazine.entries with
  | cons => exact ⟨magazineSound.tail chain, depotSound⟩
  | nil =>
    have limit := moveWhile_limit (fun source _ => !source.entries.isEmpty)
      ipcMagBatch depot magazine
    have counted := moveWhile_counted (fun source _ =>
      !source.entries.isEmpty) ipcMagBatch depot magazine depotSound.counted magazineSound.counted
    have empty : magazine.n = 0 := by rw [magazineSound.counted, chain, length_nil]
    have caps : ipcMagBatch ≤ ipcMagCap := by decide
    simp only [refillMagazine]
    generalize moveWhile (fun source _ => !source.entries.isEmpty)
      ipcMagBatch depot magazine = result at limit counted ⊢
    have filled : result.2.Sound ipcMagCap := ⟨counted.2.1, by omega⟩
    have left : result.1.Sound ipcDepotCacheMax :=
      ⟨counted.1, Nat.le_trans counted.2.2 depotSound.bound⟩
    cases top : result.2.entries with
    | nil => exact ⟨filled, left⟩
    | cons => exact ⟨filled.tail top, left⟩

theorem relieveMagazine_spec (magazine depot : Stock) :
    ((relieveMagazine magazine depot).1.entries ++ (relieveMagazine magazine depot).2.entries).Perm
      (magazine.entries ++ depot.entries) ∧ (magazine.Sound ipcMagCap →
      depot.Sound ipcDepotCacheMax → (relieveMagazine magazine depot).1.Sound ipcMagCap ∧
          (relieveMagazine magazine depot).2.Sound ipcDepotCacheMax) := by
  refine ⟨moveWhile_perm _ _ magazine depot, fun one two => ?_⟩
  have counted := moveWhile_counted (fun _ target =>
    decide (target.n < ipcDepotCacheMax)) ipcMagBatch magazine depot one.counted two.counted
  have capped : (relieveMagazine magazine depot).2.n ≤ ipcDepotCacheMax :=
    moveWhile_capped (fun _ _ going => of_decide_eq_true going) ipcMagBatch magazine depot two.bound
  exact ⟨⟨counted.1, Nat.le_trans counted.2.2 one.bound⟩, counted.2.1, capped⟩

theorem ipcMsgEntryFree_spec (magazine depot : Stock) (entry : EntryRef) :
    ((if (ipcMsgEntryFree magazine depot entry).1 then [entry] else []) ++
        (ipcMsgEntryFree magazine depot entry).2.1.entries ++
        (ipcMsgEntryFree magazine depot entry).2.2.entries).Perm
      (entry :: (magazine.entries ++ depot.entries)) ∧ (magazine.Sound ipcMagCap →
      depot.Sound ipcDepotCacheMax → (ipcMsgEntryFree magazine depot entry).2.1.Sound ipcMagCap ∧
          (ipcMsgEntryFree magazine depot entry).2.2.Sound ipcDepotCacheMax) := by
  unfold ipcMsgEntryFree
  by_cases room : magazine.n < ipcMagCap
  · simp only [if_pos room]
    exact ⟨.refl _, fun one two => ⟨⟨Stock.Counted.push one.counted entry, room⟩, two⟩⟩
  simp only [if_neg room]
  obtain ⟨moved, sound⟩ := relieveMagazine_spec magazine depot
  generalize relieveMagazine magazine depot = result at moved sound ⊢
  obtain ⟨lighter, _⟩ := result
  by_cases made : lighter.n < ipcMagCap
  · simp only [if_pos made]
    exact ⟨moved.cons entry, fun one two =>
      ⟨⟨Stock.Counted.push (sound one two).1.counted entry, made⟩, (sound one two).2⟩⟩
  · rw [if_neg made]
    exact ⟨moved.cons entry, sound⟩

theorem ipcDepotTrim_sound {depot : Stock} (depotSound : depot.Sound ipcDepotCacheMax) :
    (ipcDepotTrim depot).1.Sound ipcDepotCacheMax := by
  have counted := moveWhile_counted
    (fun source _ => decide (ipcMagBatch < source.n)) depot.n depot .empty depotSound.counted rfl
  exact ⟨counted.1, Nat.le_trans counted.2.2 depotSound.bound⟩

/-! ### The invariant -/

/-- The port a call works on. -/
def Task.port : Task → Option Nat
  | .found port _ => some port
  | .wanting port _ => some port
  | .asking port _ => some port
  | .holding port _ _ => some port
  | .written port _ _ => some port
  | .popped port _ _ => some port
  | .releasing _ => none
  | .chain _ => none

/-- What the task knows about the memory of its entry. -/
def Task.Reads (memory : EntryRef → Content) : Task → Prop
  | .written _ request entry => memory entry = request.content
  | .popped _ taken entry => memory entry = taken
  | _ => True

/-- The entries are conserved and the pools are sound. -/
structure Pools (s : State) : Prop where
  conserved : ∀ entry, (s.magazines.flatMap Stock.entries).count entry +
        s.depot.entries.count entry + s.irqFreelist.count entry +
        (s.ports.flatMap Port.msgQueue).count entry + (s.tasks.flatMap Task.entries).count entry =
      ((List.range ipcIrqPoolSize).map EntryRef.irq).count entry +
        (s.blocks.map EntryRef.heap).count entry
  blocks : s.blocks.Nodup
  magazines : ∀ magazine ∈ s.magazines, magazine.Sound ipcMagCap
  depot : s.depot.Sound ipcDepotCacheMax

/-- Every port that is spoken of exists. -/
structure Named (s : State) : Prop where
  outcomes : ∀ outcome ∈ s.outcomes, ∀ index, outcome.port = some index → index < s.ports.length
  tasks : ∀ task ∈ s.tasks, ∀ index, task.port = some index → index < s.ports.length
  deliveries : ∀ delivery ∈ s.deliveries, delivery.port < s.ports.length

/-- The messages are where they should be. -/
structure Kept (s : State) : Prop where
  reads : ∀ task ∈ s.tasks, task.Reads s.memory
  ordered : ∀ index (port : Port), s.ports[index]? = some port →
    accepted s index = port.received ++ port.msgQueue.map s.memory
  once : ∀ index (port : Port), s.ports[index]? = some port →
    port.received.Perm ((s.deliveries.filter (·.port = index)).map Delivery.taken ++
        s.tasks.filterMap (Task.pending index))
  own : ∀ delivery ∈ s.deliveries, delivery.copied = delivery.taken
  counted : ∀ port ∈ s.ports, port.msgCount = port.msgQueue.length ∧ port.msgCount ≤ portQueueMax

/-- What every section keeps. -/
structure Inv (s : State) : Prop where
  pools : Pools s
  named : Named s
  kept : Kept s

section

variable {s : State} (pools : Pools s)
include pools

theorem Pools.nodup : (entriesOf s).Nodup := by
  refine nodup_append.mpr ⟨?_, ?_, ?_⟩
  · exact List.Nodup.map (fun _ _ same => EntryRef.irq.inj same) nodup_range
  · exact List.Nodup.map (fun _ _ same => EntryRef.heap.inj same) pools.blocks
  rintro one reserve two heap rfl
  obtain ⟨_, _, rfl⟩ := mem_map.mp reserve
  obtain ⟨_, _, other⟩ := mem_map.mp heap
  cases other

theorem Pools.places_perm : (places s).Perm (entriesOf s) := by
  refine perm_iff_count.mpr fun entry => ?_
  simp only [places, entriesOf, count_append]
  exact pools.conserved entry

theorem Pools.count_le_one (entry : EntryRef) : (places s).count entry ≤ 1 := by
  have same := pools.places_perm.count_eq entry
  rw [same]
  exact nodup_iff_count_le_one.mp pools.nodup entry

end

theorem Pools.in_hand {s : State} {task : Task} (pools : Pools s) (present : task ∈ s.tasks)
    (held : task.entries = [entry]) : (∀ port ∈ s.ports, entry ∉ port.msgQueue) ∧
      ∀ other ∈ s.tasks.erase task, entry ∉ other.entries := by
  have one := pools.count_le_one entry
  have tasks := count_flatMap_erase Task.entries present entry
  simp only [places, count_append] at one
  rw [tasks, held, count_singleton_self] at one
  constructor
  · intro port inside queued
    have := count_le_flatMap Port.msgQueue inside entry
    have := count_pos_iff.mpr queued
    omega
  · intro other inside theirs
    have := count_le_flatMap Task.entries inside entry
    have := count_pos_iff.mpr theirs
    omega

theorem accepted_finish (s : State) (port : Option Nat) (request : Request) (status : IpcStatus)
    (index : Nat) : accepted (s.finish port request status) index = accepted s index ++
      if port = some index ∧ status = .ok then [request.content] else [] := by
  simp only [accepted, State.finish, filterMap_append, filterMap_cons, filterMap_nil]
  congr 1
  split <;> simp_all

section

variable (memory : EntryRef → Content)
include memory

theorem initial_pools : Pools (initial memory) where
  conserved entry := by
    have none : (List.replicate maxCpus Stock.empty).flatMap Stock.entries = [] := by
      refine flatMap_eq_nil_iff.mpr fun magazine inside => ?_
      rw [eq_of_mem_replicate inside, Stock.empty]
    have depot : Stock.empty.entries = [] := rfl
    simp only [initial, none, depot, flatMap_nil, map_nil, count_nil, Nat.zero_add, Nat.add_zero]
  blocks := nodup_nil
  magazines magazine inside := by
    rw [eq_of_mem_replicate inside]
    exact ⟨rfl, Nat.zero_le _⟩
  depot := ⟨rfl, Nat.zero_le _⟩

theorem initial_named : Named (initial memory) where
  outcomes _ inside := nomatch inside
  tasks _ inside := nomatch inside
  deliveries _ inside := nomatch inside

theorem initial_kept : Kept (initial memory) where
  reads _ inside := nomatch inside
  ordered _ _ found := nomatch found
  once _ _ found := nomatch found
  own _ inside := nomatch inside
  counted _ inside := nomatch inside

end

/-! ### Calls that move on -/

theorem mem_advance {s : State} {task other : Task} {next : List Task}
    (inside : other ∈ (s.advance task next).tasks) : other ∈ next ∨ other ∈ s.tasks.erase task :=
  mem_append.mp inside

theorem count_advance {s : State} {task : Task} (next : List Task)
    (present : task ∈ s.tasks) (entry : EntryRef) :
    ((s.advance task next).tasks.flatMap Task.entries).count entry + task.entries.count entry =
      (s.tasks.flatMap Task.entries).count entry + (next.flatMap Task.entries).count entry := by
  rw [count_flatMap_erase Task.entries present entry]
  simp only [State.advance, flatMap_append, count_append]
  omega

theorem pending_advance {s : State} {task : Task} {next : List Task} (present : task ∈ s.tasks)
    (index : Nat) (same : next.filterMap (Task.pending index) = [task].filterMap
    (Task.pending index)) : ((s.advance task next).tasks.filterMap (Task.pending index)).Perm
      (s.tasks.filterMap (Task.pending index)) := by
  simp only [State.advance, filterMap_append]
  rw [same, ← filterMap_append]
  exact ((perm_cons_erase present).filterMap (Task.pending index)).symm

/-- The next sections of a call work on its port. -/
def Follows (task : Task) (next : List Task) : Prop :=
  ∀ after ∈ next, ∀ index, after.port = some index → task.port = some index

theorem Named.advance {s : State} {task : Task} (next : List Task) (named : Named s)
    (present : task ∈ s.tasks) (follows : Follows task next) : Named (s.advance task next) where
  outcomes := named.outcomes
  tasks other inside index same := by
    rcases mem_advance inside with new | old
    · exact named.tasks task present index (follows other new index same)
    · exact named.tasks other (mem_of_mem_erase old) index same
  deliveries := named.deliveries

theorem Named.finish {s : State} {port : Option Nat} (named : Named s) (request : Request)
    (status : IpcStatus) (exists_ : ∀ index, port = some index → index < s.ports.length) :
    Named (s.finish port request status) where
  outcomes outcome inside index same := by
    rcases mem_append.mp inside with old | new
    · exact named.outcomes outcome old index same
    · rw [mem_singleton.mp new] at same
      exact exists_ index same
  tasks := named.tasks
  deliveries := named.deliveries

theorem Kept.advance {s : State} {task : Task} (next : List Task) (kept : Kept s)
    (present : task ∈ s.tasks) (reads : ∀ after ∈ next, after.Reads s.memory)
    (pending : ∀ index, next.filterMap (Task.pending index) =
      [task].filterMap (Task.pending index)) : Kept (s.advance task next) where
  reads other inside := by
    rcases mem_advance inside with new | old
    · exact reads other new
    · exact kept.reads other (mem_of_mem_erase old)
  ordered := kept.ordered
  once index port at_ := (kept.once index port at_).trans
    ((pending_advance present index (pending index)).symm.append_left _)
  own := kept.own
  counted := kept.counted

variable {status : IpcStatus}

theorem Kept.refuse {s : State} (kept : Kept s) (port : Option Nat)
    (request : Request) (refused : status ≠ .ok) : Kept (s.finish port request status) where
  reads := kept.reads
  ordered index found at_ := by
    rw [accepted_finish, if_neg (fun both => refused both.2), append_nil]
    exact kept.ordered index found at_
  once := kept.once
  own := kept.own
  counted := kept.counted

theorem Inv.advance {s : State} {task : Task} {next : List Task} (inv : Inv s)
    (present : task ∈ s.tasks) (follows : Follows task next)
    (entries : next.flatMap Task.entries = task.entries)
    (reads : ∀ after ∈ next, after.Reads s.memory) (pending : ∀ index, next.filterMap
    (Task.pending index) = [task].filterMap (Task.pending index)) : Inv (s.advance task next) where
  pools :=
    { inv.pools with
      conserved := by
        intro entry
        have moved := count_advance next present entry
        have old := inv.pools.conserved entry
        rw [entries] at moved
        exact Eq.trans (by simp only [State.advance] at moved ⊢; omega) old }
  named := inv.named.advance next present follows
  kept := inv.kept.advance next present reads pending

theorem Inv.refuse {s : State} {port : Option Nat} (inv : Inv s) (request : Request)
    (refused : status ≠ .ok) (exists_ : ∀ index, port = some index → index < s.ports.length) :
    Inv (s.finish port request status) where
  pools := { inv.pools with }
  named := inv.named.finish request status exists_
  kept := inv.kept.refuse port request refused

/-! ### Ports -/

variable {index : Nat} {port : Port}

section

variable {s : State}

theorem getElem?_setPort {other : Nat} {new found : Port}
    (present : s.ports[index]? = some port) (at_ : (s.setPort index new).ports[other]? = some found)
    : (other = index ∧ found = new) ∨ (other ≠ index ∧ s.ports[other]? = some found) := by
  have bound : index < s.ports.length := (List.getElem?_eq_some_iff.mp present).1
  by_cases same : other = index
  · subst same
    simp only [State.setPort, List.getElem?_set_self bound, Option.some.injEq] at at_
    exact .inl ⟨rfl, at_.symm⟩
  · simp only [State.setPort, List.getElem?_set_ne (Ne.symm same)] at at_
    exact .inr ⟨same, at_⟩

theorem Named.setPort (named : Named s) (index : Nat)
    (new : Port) : Named (s.setPort index new) := by
  have length : (s.setPort index new).ports.length = s.ports.length := length_set
  constructor
  · intro outcome inside other same
    exact length ▸ named.outcomes outcome inside other same
  · intro task inside other same
    exact length ▸ named.tasks task inside other same
  · intro delivery inside
    exact length ▸ named.deliveries delivery inside

theorem Inv.setPort {new : Port} (inv : Inv s) (present : s.ports[index]? = some port)
    (queue : new.msgQueue = port.msgQueue) (count : new.msgCount = port.msgCount)
    (received : new.received = port.received) : Inv (s.setPort index new) where
  pools :=
    { inv.pools with
      conserved := by
        intro entry
        have moved := count_flatMap_set Port.msgQueue new present entry
        have old := inv.pools.conserved entry
        rw [queue] at moved
        exact Eq.trans (by simp only [State.setPort] at moved ⊢; omega) old }
  named := inv.named.setPort index new
  kept :=
    { inv.kept with
      ordered := by
        intro other found at_
        rcases getElem?_setPort present at_ with ⟨rfl, rfl⟩ | ⟨_, old⟩
        · rw [received, queue]
          exact inv.kept.ordered other port present
        · exact inv.kept.ordered other found old
      once := by
        intro other found at_
        rcases getElem?_setPort present at_ with ⟨rfl, rfl⟩ | ⟨_, old⟩
        · rw [received]
          exact inv.kept.once other port present
        · exact inv.kept.once other found old
      counted := by
        intro found inside
        rcases mem_or_eq_of_mem_set inside with old | rfl
        · exact inv.kept.counted found old
        · rw [queue, count]
          exact inv.kept.counted port (mem_of_getElem? present) }

theorem Inv.takeBits (inv : Inv s)
    (present : s.ports[index]? = some port) : Inv (s.takeBits index port) := by
  unfold State.takeBits
  split
  · exact Inv.setPort
      { pools := { inv.pools with }
        named := { inv.named with }
        kept := { inv.kept with } } present rfl rfl rfl
  · exact inv

theorem Inv.create (inv : Inv s) (id generation : Nat) (ownerPid : Int) :
    Inv { s with
      ports := s.ports ++
        [{ id, generation, ownerPid, state := .active, msgQueue := [], msgCount := 0,
           notifyBits := 0, received := [] }] } := by
  have longer : ∀ index, index < s.ports.length →
      index < (s.ports ++ [(⟨id, generation, ownerPid, .active, [], 0, 0, []⟩ : Port)]).length := by
    intro index bound
    simp only [length_append, length_singleton]
    omega
  have found :
      ∀ index (port : Port), (s.ports ++ [(⟨id, generation, ownerPid, .active, [], 0, 0, []⟩ :
        Port)])[index]? = some port → s.ports[index]? = some port ∨
      (index = s.ports.length ∧ port = ⟨id, generation, ownerPid, .active, [], 0, 0, []⟩) := by
    intro index port at_
    rcases Nat.lt_or_ge index s.ports.length with old | new
    · rw [List.getElem?_append_left old] at at_
      exact .inl at_
    · rw [List.getElem?_append_right new, List.getElem?_singleton] at at_
      split at at_
      · exact .inr ⟨by omega, (Option.some.inj at_).symm⟩
      · cases at_
  refine ⟨{ inv.pools with conserved := ?_ }, ?_, { inv.kept with
    ordered := ?_, once := ?_, counted := ?_ }⟩
  · intro entry
    have old := inv.pools.conserved entry
    refine Eq.trans ?_ old
    simp
  · exact ⟨fun outcome inside index same =>
        longer index (inv.named.outcomes outcome inside index same),
      fun task inside index same => longer index (inv.named.tasks task inside index same),
      fun delivery inside => longer _ (inv.named.deliveries delivery inside)⟩
  · intro index port at_
    rcases found index port at_ with old | ⟨rfl, rfl⟩
    · exact inv.kept.ordered index port old
    -- no outcome can speak of a port that was not there
    refine filterMap_eq_nil_iff.mpr fun outcome inside => ?_
    refine if_neg fun both => ?_
    exact Nat.lt_irrefl _ (inv.named.outcomes outcome inside s.ports.length both.1)
  · intro index port at_
    rcases found index port at_ with old | ⟨rfl, rfl⟩
    · exact inv.kept.once index port old
    have delivered : s.deliveries.filter (·.port = s.ports.length) = [] := by
      refine filter_eq_nil_iff.mpr fun delivery inside same => ?_
      have := inv.named.deliveries delivery inside
      simp only [decide_eq_true_eq] at same
      omega
    have pending : s.tasks.filterMap (Task.pending s.ports.length) = [] := by
      refine filterMap_eq_nil_iff.mpr fun task inside => ?_
      have bound := inv.named.tasks task inside
      cases task with
      | popped port =>
        refine if_neg fun same => ?_
        have := bound port rfl
        omega
      | _ => rfl
    simp only [delivered, pending]
    exact .refl _
  · intro port inside
    rcases mem_append.mp inside with old | new
    · exact inv.kept.counted port old
    · rw [mem_singleton.mp new]
      exact ⟨rfl, Nat.zero_le _⟩

end

/-! ### Entries -/

variable {cpu : Nat}

theorem magazines_set {magazines : List Stock} {new : Stock}
    (sound : ∀ magazine ∈ magazines, magazine.Sound ipcMagCap) (fresh : new.Sound ipcMagCap) :
    ∀ magazine ∈ magazines.set cpu new, magazine.Sound ipcMagCap := by
  intro magazine inside
  rcases mem_or_eq_of_mem_set inside with old | rfl
  · exact sound magazine old
  · exact fresh

section Exchange

variable {s : State} {task : Task} {next : List Task} {magazines : List Stock}
  {depot : Stock} {irqFreelist : List EntryRef} {blocks : List Nat}

theorem Inv.exchange (inv : Inv s) (present : task ∈ s.tasks) (follows : Follows task next)
    (reads : ∀ after ∈ next, after.Reads s.memory)
    (pending : ∀ index, next.filterMap (Task.pending index) = [task].filterMap (Task.pending index))
    (balance : ∀ entry, (magazines.flatMap Stock.entries).count entry +
          depot.entries.count entry + irqFreelist.count entry +
          (next.flatMap Task.entries).count entry + (s.blocks.map EntryRef.heap).count entry =
        (s.magazines.flatMap Stock.entries).count entry +
          s.depot.entries.count entry + s.irqFreelist.count entry +
          task.entries.count entry + (blocks.map EntryRef.heap).count entry)
    (distinct : blocks.Nodup) (magazinesSound : ∀ magazine ∈ magazines, magazine.Sound ipcMagCap)
    (depotSound : depot.Sound ipcDepotCacheMax) :
    Inv { s.advance task next with
      magazines, depot, irqFreelist, blocks } where
  pools :=
    { conserved := by
        intro entry
        have moved := count_advance next present entry
        have old := inv.pools.conserved entry
        have both := balance entry
        simp only [State.advance] at moved ⊢
        omega
      blocks := distinct
      magazines := magazinesSound
      depot := depotSound }
  named := { inv.named.advance next present follows with }
  kept := { inv.kept.advance next present reads pending with }

end Exchange

theorem Follows.single {task after : Task} (same : after.port = task.port) :
    Follows task [after] := by
  rintro _ inside index port
  rw [mem_singleton.mp inside] at port
  exact same ▸ port

theorem Follows.none (task : Task) : Follows task [] := fun _ inside => absurd inside not_mem_nil

theorem reads_none (memory : EntryRef → Content) : ∀ other ∈ ([] : List Task), other.Reads memory :=
  fun _ inside => absurd inside not_mem_nil

theorem reads_single {memory : EntryRef → Content} {after : Task} (reads : after.Reads memory) :
    ∀ other ∈ [after], other.Reads memory := by
  intro other inside
  rw [mem_singleton.mp inside]
  exact reads

variable {request : Request}

section

variable {s : State}

section

variable (inv : Inv s) (present : .wanting index request ∈ s.tasks)
include inv present

theorem Inv.allocIrq (reserve : s.irqFreelist = entry :: rest) : Inv { s.advance
    (.wanting index request) [.holding index request entry] with irqFreelist := rest } := by
  refine inv.exchange present (Follows.single rfl) (reads_single trivial)
    (fun _ => rfl) ?_ inv.pools.blocks inv.pools.magazines inv.pools.depot
  intro other
  rw [reserve]
  simp only [State.advance, Task.entries, flatMap_cons, flatMap_nil,
    append_nil, count_nil, count_cons]
  omega

theorem Inv.alloc (local_ : s.magazines[cpu]? = some magazine) :
    Inv { s.advance (.wanting index request)
        (allocated index request (entryAlloc magazine s.depot).1) with
      magazines := s.magazines.set cpu (entryAlloc magazine s.depot).2.1
      depot := (entryAlloc magazine s.depot).2.2 } := by
  have moved := entryAlloc_perm magazine s.depot
  have sound := entryAlloc_sound
    (inv.pools.magazines magazine (mem_of_getElem? local_)) inv.pools.depot
  generalize entryAlloc magazine s.depot = result at moved sound ⊢
  obtain ⟨entry, lighter, left⟩ := result
  refine inv.exchange present ?_ ?_ ?_ ?_ inv.pools.blocks
    (magazines_set inv.pools.magazines sound.1) sound.2
  · cases entry <;> exact Follows.single rfl
  · cases entry <;> exact reads_single trivial
  · cases entry <;> exact fun _ => rfl
  intro other
  have pool := count_flatMap_set Stock.entries lighter local_ other
  have all := moved.count_eq other
  cases entry with
  | none =>
    simp only [Option.toList, nil_append, count_append] at all
    simp only [State.advance, allocated, Task.entries, flatMap_cons, flatMap_nil,
      append_nil, count_nil]
    omega
  | some =>
    simp only [Option.toList, count_append] at all
    simp only [State.advance, allocated, Task.entries, flatMap_cons, flatMap_nil,
      append_nil, count_nil]
    omega

end

theorem Inv.heapAlloc {block : Nat} (inv : Inv s)
    (present : .asking index request ∈ s.tasks) (fresh : block ∉ s.blocks) :
    Inv { s.advance (.asking index request)
      [.holding index request (.heap block)] with
        blocks := block :: s.blocks } := by
  refine inv.exchange present (Follows.single rfl) (reads_single trivial)
    (fun _ => rfl) ?_ (nodup_cons.mpr ⟨fresh, inv.pools.blocks⟩) inv.pools.magazines inv.pools.depot
  intro other
  simp only [State.advance, Task.entries, flatMap_cons, flatMap_nil,
    append_nil, count_nil, map_cons, count_cons]
  omega

theorem Inv.freeIrq {slot : Nat} (inv : Inv s) (present : .releasing (.irq slot) ∈ s.tasks) :
    Inv { s.advance (.releasing (.irq slot)) [] with
      irqFreelist := .irq slot :: s.irqFreelist } := by
  refine inv.exchange present (Follows.none _) (reads_none _) (fun _ => rfl) ?_
    inv.pools.blocks inv.pools.magazines inv.pools.depot
  intro other
  simp only [State.advance, Task.entries, flatMap_nil, count_nil, count_cons]
  omega

theorem Inv.freeHeap {block : Nat} (inv : Inv s)
    (present : .releasing (.heap block) ∈ s.tasks) (local_ : s.magazines[cpu]? = some magazine) :
    Inv { s.advance (.releasing (.heap block))
        (if (ipcMsgEntryFree magazine s.depot (.heap block)).1 then
          [.chain [.heap block]] else []) with
      magazines := s.magazines.set cpu (ipcMsgEntryFree magazine s.depot (.heap block)).2.1
      depot := (ipcMsgEntryFree magazine s.depot (.heap block)).2.2 } := by
  obtain ⟨moved, kept⟩ := ipcMsgEntryFree_spec magazine s.depot (.heap block)
  have sound := kept (inv.pools.magazines magazine (mem_of_getElem? local_)) inv.pools.depot
  generalize ipcMsgEntryFree magazine s.depot (.heap block) = result at moved sound ⊢
  obtain ⟨excess, fuller, left⟩ := result
  refine inv.exchange present ?_ ?_ ?_ ?_ inv.pools.blocks
    (magazines_set inv.pools.magazines sound.1) sound.2
  · cases excess
    · exact Follows.none _
    · exact Follows.single rfl
  · cases excess
    · exact reads_none _
    · exact reads_single trivial
  · cases excess <;> exact fun _ => rfl
  intro other
  have pool := count_flatMap_set Stock.entries fuller local_ other
  have all := moved.count_eq other
  cases excess with
  | false =>
    simp only [Bool.false_eq_true, if_false, nil_append, count_append, count_cons, flatMap_nil,
      count_nil, Task.entries, State.advance] at all ⊢
    omega
  | true =>
    simp only [if_true, count_append, count_cons, flatMap_cons, flatMap_nil, append_nil,
      count_nil, Task.entries, State.advance] at all ⊢
    omega

theorem Inv.heapFree {block : Nat} (inv : Inv s)
    (present : .chain (.heap block :: rest) ∈ s.tasks) :
    Inv { s.advance (.chain (.heap block :: rest)) [.chain rest] with
      blocks := s.blocks.erase block } := by
  have known : block ∈ s.blocks := by
    have held := count_flatMap_erase Task.entries present (.heap block)
    have all := inv.pools.conserved (.heap block)
    rw [held] at all
    have none : ((List.range ipcIrqPoolSize).map EntryRef.irq).count (.heap block) = 0 := by
      refine count_eq_zero.mpr fun inside => ?_
      obtain ⟨_, _, other⟩ := mem_map.mp inside
      cases other
    simp only [Task.entries, count_cons_self] at all
    have positive : 0 < (s.blocks.map EntryRef.heap).count (.heap block) := by omega
    obtain ⟨_, inside, found⟩ := mem_map.mp (count_pos_iff.mp positive)
    cases found
    exact inside
  refine inv.exchange present (Follows.single rfl) (reads_single trivial)
    (fun _ => rfl) ?_ (inv.pools.blocks.erase block) inv.pools.magazines inv.pools.depot
  intro other
  have gone := (((perm_cons_erase known).map EntryRef.heap).count_eq other)
  simp only [map_cons, count_cons] at gone
  simp only [State.advance, Task.entries, flatMap_cons, flatMap_nil, append_nil, count_cons]
  omega

theorem Inv.trim (inv : Inv s) :
    Inv { s with
      depot := (ipcDepotTrim s.depot).1
      tasks := .chain (ipcDepotTrim s.depot).2.entries :: s.tasks } where
  pools :=
    { conserved := by
        intro entry
        have moved := (moveWhile_perm
          (fun source _ => decide (ipcMagBatch < source.n)) s.depot.n s.depot .empty).count_eq entry
        have old := inv.pools.conserved entry
        refine Eq.trans ?_ old
        simp only [count_append, Stock.empty, count_nil] at moved
        simp only [ipcDepotTrim, Stock.empty, flatMap_cons, Task.entries, count_append]
        omega
      blocks := inv.pools.blocks
      magazines := inv.pools.magazines
      depot := ipcDepotTrim_sound inv.pools.depot }
  named :=
    { outcomes := inv.named.outcomes
      deliveries := inv.named.deliveries
      tasks := by
        intro task inside index same
        rcases mem_cons.mp inside with rfl | old
        · cases same
        · exact inv.named.tasks task old index same }
  kept :=
    { ordered := inv.kept.ordered
      once := inv.kept.once
      own := inv.kept.own
      counted := inv.kept.counted
      reads := by
        intro task inside
        rcases mem_cons.mp inside with rfl | old
        · trivial
        · exact inv.kept.reads task old }

end

/-! ### Messages -/

theorem Task.Reads.update {memory : EntryRef → Content} {task : Task} (reads : task.Reads memory)
    (apart : entry ∉ task.entries) (content : Content) :
    task.Reads (Function.update memory entry content) := by
  cases task with
  | written _ _ own =>
    have other : own ≠ entry := by
      rintro rfl
      exact apart (mem_singleton_self _)
    exact (update_of_ne other ..).trans reads
  | popped _ _ own =>
    have other : own ≠ entry := by
      rintro rfl
      exact apart (mem_singleton_self _)
    exact (update_of_ne other ..).trans reads
  | _ => trivial

section

variable {s : State} (inv : Inv s)
include inv

theorem Inv.fill (present : .holding index request entry ∈ s.tasks) :
    Inv { s.advance (.holding index request entry)
        [.written index request entry] with
      memory := Function.update s.memory entry request.content } := by
  obtain ⟨queues, hands⟩ := inv.pools.in_hand present rfl
  have moved : Inv (s.advance (.holding index request entry)
      [.asking index request, .releasing entry]) :=
    inv.advance present (by
        intro after inside
        simp only [mem_cons, not_mem_nil, or_false] at inside
        rcases inside with rfl | rfl
        · exact fun _ same => same
        · exact nofun)
      rfl (by simp [Task.Reads]) (fun _ => rfl)
  refine ⟨{ moved.pools with }, ?_, ?_⟩
  · exact { inv.named.advance [.written index request entry] present
      (Follows.single rfl) with }
  refine { moved.kept with reads := ?_, ordered := ?_ }
  · intro task inside
    rcases mem_advance inside with new | old
    · rw [mem_singleton.mp new]
      exact update_self ..
    · exact (inv.kept.reads task (mem_of_mem_erase old)).update (hands task old) _
  · intro other port at_
    rw [map_congr_left (g := s.memory)]
    · exact inv.kept.ordered other port at_
    intro queued inside
    refine update_of_ne ?_ ..
    rintro rfl
    exact queues port (mem_of_getElem? at_) inside

theorem Inv.enqueue (present : .written index request entry ∈ s.tasks)
    (found : s.ports[index]? = some port) (room : port.msgCount < portQueueMax) :

    Inv (((s.advance (.written index request entry) []).finish index request .ok).setPort index
        { port with msgQueue := port.msgQueue ++ [entry], msgCount := port.msgCount + 1 }) := by
  have bound := (List.getElem?_eq_some_iff.mp found).1
  refine ⟨{ inv.pools with conserved := ?_ }, ?_, ?_⟩
  · intro other
    have tasks := count_advance [] present other
    have ports := count_flatMap_set Port.msgQueue
      { port with msgQueue := port.msgQueue ++ [entry], msgCount := port.msgCount + 1 }
      found other
    have old := inv.pools.conserved other
    refine Eq.trans ?_ old
    simp only [State.advance, State.finish, State.setPort, Task.entries,
      flatMap_nil, count_nil, count_append] at tasks ports ⊢
    omega
  · refine Named.setPort ?_ index _
    refine (inv.named.advance [] present (Follows.none _)).finish request .ok ?_
    rintro _ ⟨⟩
    exact bound
  have kept := inv.kept.advance [] present (reads_none _) (fun _ => rfl)
  refine { reads := kept.reads, own := kept.own, ordered := ?_, once := ?_, counted := ?_ }
  · intro other target at_
    change accepted ((s.advance (.written index request entry) []).finish
      index request .ok) other = _
    rw [accepted_finish]
    rcases getElem?_setPort found at_ with ⟨rfl, rfl⟩ | ⟨apart, old⟩
    · have read : s.memory entry = request.content := inv.kept.reads _ present
      rw [if_pos ⟨rfl, rfl⟩, kept.ordered other port found]
      simp only [map_append, map_cons, map_nil, append_assoc]
      rw [← read]
      rfl
    · rw [if_neg (fun both => apart (Option.some.inj both.1).symm), append_nil]
      exact kept.ordered other target old
  · intro other target at_
    rcases getElem?_setPort found at_ with ⟨rfl, rfl⟩ | ⟨_, old⟩
    · exact kept.once other port found
    · exact kept.once other target old
  · intro target inside
    rcases mem_or_eq_of_mem_set inside with old | rfl
    · exact kept.counted target old
    obtain ⟨length, _⟩ := inv.kept.counted port (mem_of_getElem? found)
    refine ⟨?_, room⟩
    simp only [length_append, length_singleton, length]

theorem Inv.receive (found : s.ports[index]? = some port) (queue : port.msgQueue = entry :: rest) :
    Inv ({ s with tasks := .popped index (s.memory entry) entry :: s.tasks }.setPort index
        { port with
          msgQueue := rest
          msgCount := port.msgCount - 1
          received := port.received ++ [s.memory entry] }) := by
  have bound := (List.getElem?_eq_some_iff.mp found).1
  refine ⟨{ inv.pools with conserved := ?_ }, ?_, ?_⟩
  · intro other
    have ports := count_flatMap_set Port.msgQueue { port with
        msgQueue := rest, msgCount := port.msgCount - 1
        received := port.received ++ [s.memory entry] } found other
    have old := inv.pools.conserved other
    refine Eq.trans ?_ old
    rw [queue] at ports
    simp only [State.setPort, Task.entries, flatMap_cons,
      count_append, count_cons, count_nil] at ports ⊢
    omega
  · refine Named.setPort ?_ index _
    refine { outcomes := inv.named.outcomes, deliveries := inv.named.deliveries, tasks := ?_ }
    intro task inside other same
    rcases mem_cons.mp inside with rfl | old
    · cases same
      exact bound
    · exact inv.named.tasks task old other same
  refine { own := inv.kept.own, reads := ?_, ordered := ?_, once := ?_, counted := ?_ }
  · intro task inside
    rcases mem_cons.mp inside with rfl | old
    · rfl
    · exact inv.kept.reads task old
  · intro other target at_
    rcases getElem?_setPort found at_ with ⟨rfl, rfl⟩ | ⟨_, old⟩
    · have before := inv.kept.ordered other port found
      rw [queue, map_cons] at before
      simpa [State.setPort, accepted] using before
    · exact inv.kept.ordered other target old
  · intro other target at_
    rcases getElem?_setPort found at_ with ⟨rfl, rfl⟩ | ⟨apart, old⟩
    · have before := inv.kept.once other port found
      simp only [State.setPort, filterMap_cons, Task.pending, if_pos]
      refine (perm_append_singleton ..).trans ?_
      exact (before.cons _).trans perm_middle.symm
    · simp only [State.setPort, filterMap_cons, Task.pending, if_neg (Ne.symm apart)]
      exact inv.kept.once other target old
  · intro target inside
    rcases mem_or_eq_of_mem_set inside with old | rfl
    · exact inv.kept.counted target old
    obtain ⟨length, most⟩ := inv.kept.counted port (mem_of_getElem? found)
    rw [queue, length_cons] at length
    dsimp only
    omega

end

theorem Inv.copy {s : State} {taken : Content} (inv : Inv s)
    (present : .popped index taken entry ∈ s.tasks) :
    Inv { s.advance (.popped index taken entry) [.releasing entry] with
      deliveries := s.deliveries ++ [⟨index, taken, s.memory entry⟩] } := by
  have read : s.memory entry = taken := inv.kept.reads _ present
  have bound := inv.named.tasks _ present index rfl
  have moved : Pools (s.advance (.popped index taken entry) [.releasing entry]) :=
    { inv.pools with
      conserved := by
        intro other
        have tasks := count_advance [.releasing entry] present other
        have old := inv.pools.conserved other
        refine Eq.trans ?_ old
        simp only [State.advance, Task.entries, flatMap_cons, flatMap_nil, append_nil] at tasks ⊢
        omega }
  have named := inv.named.advance [.releasing entry] present (by
      intro after inside
      rw [mem_singleton.mp inside]
      exact nofun)
  refine ⟨{ moved with }, ?_, ?_⟩
  · refine { outcomes := named.outcomes, tasks := named.tasks, deliveries := ?_ }
    intro delivery inside
    rcases mem_append.mp inside with old | new
    · exact named.deliveries delivery old
    · rw [mem_singleton.mp new]
      exact bound
  refine { ordered := inv.kept.ordered, counted := inv.kept.counted
           reads := ?_, once := ?_, own := ?_ }
  · intro task inside
    rcases mem_advance inside with new | old
    · rw [mem_singleton.mp new]
      trivial
    · exact inv.kept.reads task (mem_of_mem_erase old)
  · intro other port at_
    refine (inv.kept.once other port at_).trans ?_
    have tasks := (perm_cons_erase present).filterMap (Task.pending other)
    refine (tasks.append_left _).trans ?_
    simp only [State.advance, filter_append, map_append,
      filterMap_append, filterMap_cons, filterMap_nil, nil_append, Task.pending]
    by_cases same : index = other
    · simp only [same, decide_true, filter_cons_of_pos, filter_nil, map_cons, map_nil, append_assoc]
      exact .refl _
    · simp only [if_neg same, filter_cons, decide_eq_true_eq, filter_nil, map_nil, append_nil]
      exact .refl _
  · intro delivery inside
    rcases mem_append.mp inside with old | new
    · exact inv.kept.own delivery old
    · rw [mem_singleton.mp new]
      exact read

/-! ### Runs -/

theorem Inv.initial (memory : EntryRef → Content) : Inv (MsgEntry.initial memory) :=
  ⟨initial_pools memory, initial_named memory, initial_kept memory⟩

theorem portGet_bound {s : State} {id : Nat} {gen : Option Nat}
    (found : portGet s id gen = some index) : index < s.ports.length :=
  (List.findIdx?_eq_some_iff_getElem.mp found).1

theorem Inv.post {s : State} (inv : Inv s) (request : Request) (bound : index < s.ports.length) :
    Inv { s with tasks := .found index request :: s.tasks } where
  pools :=
    { inv.pools with
      conserved := by
        intro entry
        have old := inv.pools.conserved entry
        exact Eq.trans (by simp [Task.entries]) old }
  named :=
    { outcomes := inv.named.outcomes
      deliveries := inv.named.deliveries
      tasks := by
        intro task inside other same
        rcases mem_cons.mp inside with rfl | old
        · cases same
          exact bound
        · exact inv.named.tasks task old other same }
  kept :=
    { ordered := inv.kept.ordered
      once := inv.kept.once
      own := inv.kept.own
      counted := inv.kept.counted
      reads := by
        intro task inside
        rcases mem_cons.mp inside with rfl | old
        · trivial
        · exact inv.kept.reads task old }

theorem Inv.giveUp {s : State} {task : Task} (inv : Inv s) (present : task ∈ s.tasks)
    (request : Request) (refused : status ≠ .ok) (port : task.port = some index)
    (entries : task.entries = []) (pending : ∀ index, [task].filterMap (Task.pending index) = []) :
    Inv ((s.advance task []).finish index request status) := by
  refine (inv.advance present (Follows.none _) entries.symm (reads_none _)
    fun other => (pending other).symm).refuse request refused ?_
  rintro _ ⟨⟩
  exact inv.named.tasks task present index port

variable {s' : State} {label : Label}

section

variable {s : State}

/-- Every section keeps the invariant. -/
theorem Inv.step (inv : Inv s) (taken : MsgEntry.step s label s') : Inv s' := by
  cases label with
  | create id generation ownerPid =>
    simp only [MsgEntry.step, exec] at taken
    split at taken
    · cases taken
    · cases taken
      exact inv.create id generation ownerPid
  | close =>
    simp only [MsgEntry.step, exec] at taken
    split at taken
    · cases taken
    · obtain ⟨_, found, rfl⟩ := map_eq_some_iff.mp taken
      exact inv.setPort found rfl rfl rfl
  | post request =>
    simp only [MsgEntry.step, exec] at taken
    split at taken
    · cases taken
      refine inv.refuse request ?_ nofun
      unfold missingStatus
      split <;> exact nofun
    · rename_i index found
      cases taken
      exact inv.post request (portGet_bound found)
  | check _ request =>
    simp only [MsgEntry.step, exec] at taken
    split at taken
    · rename_i present
      obtain ⟨port, found, rfl⟩ := map_eq_some_iff.mp taken
      split
      · exact inv.giveUp present request nofun rfl rfl fun _ => rfl
      · exact inv.advance present (Follows.single rfl) rfl (reads_single trivial) fun _ => rfl
    · cases taken
  | alloc _ _ request =>
    simp only [MsgEntry.step, exec] at taken
    split at taken
    · rename_i present
      split at taken
      · split at taken
        · rename_i entry rest answer
          cases taken
          refine inv.allocIrq present ?_
          unfold entryAllocIrq at answer
          split at answer
          · cases answer
            assumption
          · cases answer
        · cases taken
          exact inv.giveUp present request nofun rfl rfl fun _ => rfl
      · obtain ⟨_, local_, rfl⟩ := map_eq_some_iff.mp taken
        exact inv.alloc present local_
    · cases taken
  | heapAlloc _ request answer =>
    simp only [MsgEntry.step, exec] at taken
    split at taken
    · rename_i present
      cases answer with
      | none =>
        cases taken
        exact inv.giveUp present request nofun rfl rfl fun _ => rfl
      | some =>
        dsimp only at taken
        split at taken
        · cases taken
        rename_i fresh
        cases taken
        exact inv.heapAlloc present fresh
    · cases taken
  | fill =>
    simp only [MsgEntry.step, exec] at taken
    split at taken
    · rename_i present
      cases taken
      exact inv.fill present
    · cases taken
  | enqueue index request entry =>
    simp only [MsgEntry.step, exec] at taken
    split at taken
    · rename_i present
      obtain ⟨port, found, rfl⟩ := map_eq_some_iff.mp taken
      split
      · have follows : Follows (.written index request entry) [.releasing entry] := by
          intro after inside
          rw [mem_singleton.mp inside]
          exact nofun
        refine (inv.advance present follows rfl (reads_single trivial)
          fun _ => rfl).refuse request nofun ?_
        rintro _ ⟨⟩
        exact (List.getElem?_eq_some_iff.mp found).1
      · rename_i room
        exact inv.enqueue present found (Nat.lt_of_not_le room)
    · cases taken
  | notify =>
    obtain ⟨_, found, rfl⟩ := map_eq_some_iff.mp taken
    split
    · exact inv
    · exact inv.setPort found rfl rfl rfl
  | waitNotify =>
    obtain ⟨_, found, rfl⟩ := map_eq_some_iff.mp taken
    exact inv.takeBits found
  | receive =>
    obtain ⟨port, found, rfl⟩ := map_eq_some_iff.mp taken
    split
    · exact inv
    split
    · rename_i queue
      exact inv.receive found queue
    · exact inv.takeBits found
  | copy =>
    simp only [MsgEntry.step, exec] at taken
    split at taken
    · rename_i present
      cases taken
      exact inv.copy present
    · cases taken
  | free _ entry =>
    simp only [MsgEntry.step, exec] at taken
    split at taken
    · rename_i present
      cases entry with
      | irq =>
        cases taken
        exact inv.freeIrq present
      | heap =>
        obtain ⟨_, local_, rfl⟩ := map_eq_some_iff.mp taken
        exact inv.freeHeap present local_
    · cases taken
  | trim =>
    cases taken
    exact inv.trim
  | heapFree =>
    simp only [MsgEntry.step, exec] at taken
    split at taken
    · rename_i present
      cases taken
      exact inv.heapFree present
    · cases taken

theorem Inv.contract (inv : Inv s) : Contract s where
  ordered := inv.kept.ordered
  once := inv.kept.once
  own := inv.kept.own
  counted := inv.kept.counted
  conserved := ⟨inv.pools.places_perm, inv.pools.nodup⟩
  magazines magazine inside :=
    ⟨(inv.pools.magazines magazine inside).counted, (inv.pools.magazines magazine inside).bound⟩
  depot := ⟨inv.pools.depot.counted, inv.pools.depot.bound⟩

/-! ### Refusals -/

theorem not_ends {good : IpcStatus → Prop}
    (same : s'.outcomes = s.outcomes) : ¬ Ends s s' good := by
  rintro ⟨_, longer, _⟩
  have := congrArg List.length (same.symm.trans longer)
  simp at this

theorem ends_iff {outcome : Outcome} {good : IpcStatus → Prop}
    (ended : s'.outcomes = s.outcomes ++ [outcome]) : Ends s s' good ↔ good outcome.status := by
  constructor
  · rintro ⟨_, longer, holds⟩
    have same := append_cancel_left (ended.symm.trans longer)
    cases same
    exact holds
  · intro holds
    exact ⟨outcome, ended, holds⟩


theorem endsAsSaid_quiet (same : s'.outcomes = s.outcomes) (never : ¬ Refuses s label)
    (other : ¬ label.Queues) : EndsAsSaid s s' label :=
  ⟨iff_of_false (not_ends same) never, iff_of_false (not_ends same) fun both => other both.1⟩

theorem endsAsSaid_refused {outcome : Outcome} (ended : s'.outcomes = s.outcomes ++ [outcome])
    (refused : outcome.status ≠ .ok) (said : Refuses s label) : EndsAsSaid s s' label := by
  constructor
  · rw [ends_iff ended]
    exact iff_of_true refused said
  · rw [ends_iff ended]
    exact iff_of_false refused fun both => both.2 said

end

/-- A section of a post. -/
def Label.posts : Label → Prop
  | .post _ | .check .. | .alloc .. | .heapAlloc .. | .enqueue .. => True
  | _ => False

theorem outcomes_kept {s : State} (taken : MsgEntry.step s label s') (quiet : ¬ label.posts) :
    s'.outcomes = s.outcomes := by
  unfold MsgEntry.step at taken
  cases label
  case post | check | alloc | heapAlloc | enqueue => exact absurd trivial quiet
  all_goals
    simp only [exec] at taken
    grind [State.takeBits, State.setPort, State.advance]

theorem Inv.endsAsSaid {s : State} (inv : Inv s)
    (taken : MsgEntry.step s label s') : EndsAsSaid s s' label := by
  cases label with
  | post =>
    simp only [MsgEntry.step, exec] at taken
    split at taken
    · rename_i missing
      cases taken
      refine endsAsSaid_refused rfl ?_ missing
      unfold missingStatus
      split <;> exact nofun
    · rename_i index found
      cases taken
      refine endsAsSaid_quiet rfl ?_ id
      intro missing
      rw [Refuses, found] at missing
      cases missing
  | check =>
    simp only [MsgEntry.step, exec] at taken
    split at taken
    · obtain ⟨port, found, rfl⟩ := map_eq_some_iff.mp taken
      split
      · rename_i dead
        exact endsAsSaid_refused rfl nofun ⟨port, found, dead⟩
      rename_i alive
      refine endsAsSaid_quiet rfl ?_ id
      rintro ⟨_, at_, dead⟩
      cases found.symm.trans at_
      exact alive dead
    · cases taken
  | alloc =>
    simp only [MsgEntry.step, exec] at taken
    split at taken
    · split at taken
      · rename_i kernel
        split at taken
        · rename_i entry rest answer
          cases taken
          refine endsAsSaid_quiet rfl ?_ id
          rintro ⟨_, empty⟩
          rw [empty] at answer
          cases answer
        · rename_i rest answer
          cases taken
          refine endsAsSaid_refused rfl nofun ⟨kernel, ?_⟩
          unfold entryAllocIrq at answer
          split at answer
          · cases answer
          · assumption
      · rename_i user
        obtain ⟨_, _, rfl⟩ := map_eq_some_iff.mp taken
        exact endsAsSaid_quiet rfl (fun both => user both.1) id
    · cases taken
  | heapAlloc _ _ answer =>
    simp only [MsgEntry.step, exec] at taken
    split at taken
    · cases answer with
      | none =>
        cases taken
        exact endsAsSaid_refused rfl nofun rfl
      | some =>
        dsimp only at taken
        split at taken
        · cases taken
        · cases taken
          exact endsAsSaid_quiet rfl nofun id
    · cases taken
  | enqueue index request entry =>
    simp only [MsgEntry.step, exec] at taken
    split at taken
    · obtain ⟨port, found, rfl⟩ := map_eq_some_iff.mp taken
      obtain ⟨length, most⟩ := inv.kept.counted port (mem_of_getElem? found)
      split
      · rename_i full
        exact endsAsSaid_refused rfl nofun ⟨port, found, by omega⟩
      have accepts : ¬ Refuses s (.enqueue index request entry) := by
        rintro ⟨other, at_, full⟩
        cases found.symm.trans at_
        omega
      constructor
      · rw [ends_iff rfl]
        exact iff_of_false (fun refused => refused rfl) accepts
      · rw [ends_iff rfl]
        exact iff_of_true rfl ⟨trivial, accepts⟩
    · cases taken
  | _ => exact endsAsSaid_quiet (outcomes_kept taken id) id id

theorem asks_heap_iff {s : State} (local_ : s.magazines[cpu]? = some magazine)
    (user : request.sender ≠ .kernel) (taken : MsgEntry.step s (.alloc cpu index request) s') :
    s'.tasks = .asking index request ::
    s.tasks.erase (.wanting index request) ↔ magazine.entries = [] ∧ s.depot.entries = [] := by
  rw [← entryAlloc_none_iff magazine s.depot]
  simp only [MsgEntry.step, exec] at taken
  split at taken
  · obtain ⟨_, found, rfl⟩ := map_eq_some_iff.mp taken
    cases local_.symm.trans found
    cases (entryAlloc magazine s.depot).1 with
    | none | some => simp [State.advance, allocated]
  · cases taken

/-- In every run of posts, notifies, receives, frees and trims: each queue is
first in, first out, every message taken off it is delivered once and as it was
posted, its counter is its length and within bounds, and every entry is in
exactly one place.  A post ends in failure exactly where its port is missing or
dead, its entry cannot be had or its queue is full, and in success exactly
where it queues its message. -/
theorem async_queue_contract {memory : EntryRef → Content} {labels : List Label}
    {s : State} (run : Steps MsgEntry.step (MsgEntry.initial memory) labels s) : Contract s ∧
    (∀ label s', MsgEntry.step s label s' → EndsAsSaid s s' label) ∧ ∀ cpu index (request : Request)
      (magazine : Stock) s', s.magazines[cpu]? = some magazine → request.sender ≠ .kernel →
        MsgEntry.step s (.alloc cpu index request) s' → (s'.tasks = .asking index request ::
        s.tasks.erase (.wanting index request) ↔ magazine.entries = [] ∧ s.depot.entries = []) := by
  have inv : Inv s := run.invariant (fun _ _ _ old taken => old.step taken) (Inv.initial memory)
  refine ⟨inv.contract, fun label s' taken => inv.endsAsSaid taken, ?_⟩
  intro cpu index request magazine s' local_ user taken
  exact asks_heap_iff local_ user taken

/-- A post of a process and a post of the kernel, received by the owner of the
port in this order. -/
def twoPosts : List Label :=
  let signal : Message := ⟨0, 0, 0, 11, 1, 2, 3, 4, 8, 4096⟩
  let user : Request := ⟨5, none, .user 3 4, signal⟩
  let kernel : Request := ⟨5, none, .kernel, signal⟩
  [.create 5 1 7, .post user, .post kernel, .check 0 kernel, .check 0 user,
    .alloc 0 0 user, .heapAlloc 0 user (some 100), .alloc 1 0 kernel, .fill 0 user (.heap 100),
    .enqueue 0 user (.heap 100), .fill 0 kernel (.irq 0), .enqueue 0 kernel (.irq 0), .notify 0 2,
    .receive 0 7, .receive 0 7, .copy 0 kernel.content (.irq 0),
    .copy 0 user.content (.heap 100), .free 0 (.irq 0), .free 1 (.heap 100)]

theorem async_queue_contract_twoPosts : ∃ s, Steps MsgEntry.step
    (MsgEntry.initial fun _ => ⟨⟨0, 0, 0, 0, 0, 0, 0, 0, 0, 0⟩, false⟩) twoPosts s ∧
      (accepted s 0).map (·.payloadOwned) = [true, false] ∧ s.tasks = [] ∧ Contract s := by
  have facts : (followRun exec (MsgEntry.initial fun _ => ⟨⟨0, 0, 0, 0, 0, 0, 0, 0, 0, 0⟩, false⟩)
      twoPosts).any (fun s => decide ((accepted s 0).map (·.payloadOwned) = [true, false] ∧
          s.tasks = [])) = true := by
    decide +kernel
  obtain ⟨s, followed, holds⟩ := (any_eq_true _ _).mp facts
  obtain ⟨order, idle⟩ := of_decide_eq_true holds
  have run : Steps MsgEntry.step _ twoPosts s := Steps.of_followRun followed
  exact ⟨s, run, order, idle, (async_queue_contract run).1⟩

end MainDob.Kernel.MsgEntry
