/-
Purpose: The line protocol in every run that registers no driver on a line that is armed for
  discovery, and whose lines have inputs of their own: the reports that are owed are counted, no
  line that somebody waits for stays masked, and no armed safety timer is initialised.
Trusted boundary: none beyond Kernel.IrqLines
Main exports: Clear, Attachable, irq_line_protocol
-/
import MainDob.Proofs.IrqLines

namespace MainDob.Kernel.IrqLines

open Function (update update_of_ne update_self)
open Lib
open List Option

/-! ### The condition -/

/-- No other line in use has the input of this one. -/
def Clear (p : Platform) (s : State) (irq : Nat) : Prop :=
  ∀ other, other < maxIrqForward → other ≠ irq → InUse (s.lines other) → input p other ≠ input p irq

/-- A registration on the line is one more sharer, or the line is not armed for
discovery and has an input of its own. -/
def Attachable (p : Platform) (s : State) (irq : Nat) : Prop :=
  (s.lines irq).sharerCount = 0 →
    (s.lines irq).probeArmed = false ∧ wired p irq = true ∧ Clear p s irq

/-- No ISA line in use has the input of a PCI line. -/
def Discoverable (p : Platform) (s : State) : Prop :=
  ∀ line, line < 16 → InUse (s.lines line) → ∀ gsi, 16 ≤ gsi →
    gsi < maxIrqForward → p.covers gsi = true → input p line ≠ gsi

/-- The chipset's answer is a PCI line that the controller has. -/
def Answered (p : Platform) (gsi : Nat) : Prop :=
  16 ≤ gsi ∧ gsi < maxIrqForward ∧ p.covers gsi = true

/-- The condition: a driver is registered (directly, through a binding, or as
the chipset answers) on lines that are not armed for discovery, and the lines in
use have inputs of their own. -/
def Guard (p : Platform) (s : State) : Label → Prop
  | .irqRegister _ irq _ =>
    irq.toNat < maxIrqForward → Attachable p s irq.toNat
  | .registerPci _ _ bsf _ iline =>
    if p.ioapic = false then
      iline.toNat ≠ 0 → iline.toNat < 16 → Attachable p s iline.toNat
    else
      ∀ gsi, pciBindingLookup s (.ofReg bsf.toNat) = some gsi → Attachable p s gsi
  | .resolve _ answer =>
    (∀ gsi, answer = some gsi → Answered p gsi.toNat → Attachable p s gsi.toNat) ∧
    ((∀ gsi, answer = some gsi → ¬ Answered p gsi.toNat) → Discoverable p s)
  | .pciClaim _ gsi => ¬ InUse (s.lines gsi.toNat) → Clear p s gsi.toNat
  | _ => True

/-! ### The invariant -/

/-- What is kept of the tables. -/
structure Tables (p : Platform) (s : State) : Prop where
  bindings : ∀ x ∈ s.pciBindings, x.used = true → p.ioapic = true ∧
    16 ≤ x.gsi ∧ x.gsi < maxIrqForward ∧ p.covers x.gsi = true
  pending : ∀ x ∈ s.pciPending, x.used = true → p.ioapic = true
  count : s.pciPendingCount = s.pciPending.countP Pending.used
  places : s.pciPending ≠ []
  calls : ∀ thread call, s.calls thread = some call → p.ioapic = true
  inits : ∀ x ∈ s.inits, x.2 = false

/-- What is kept of a state, also while a resolution ends. -/
structure Core (p : Platform) (s : State) : Prop where
  heap : Timers.HeapOk s.wheel
  lines : ∀ irq, irq < maxIrqForward → Good p s irq
  apart : ∀ irq, irq < maxIrqForward → InUse (s.lines irq) → Clear p s irq
  tables : Tables p s

/-- A line is armed for discovery while a driver is resolving. -/
def Resolving (s : State) : Prop :=
  ∀ irq, irq < maxIrqForward → (s.lines irq).probeArmed = true → 0 < s.pciPendingCount

section Runs

variable {p : Platform} {s s' : State} {irq : Nat}

theorem Only.tables (only : Only p irq s s') (tables : Tables p s) : Tables p s' where
  bindings := only.bindings ▸ tables.bindings
  pending := only.pending ▸ tables.pending
  count := by
    rw [only.pendingCount, only.pending]
    exact tables.count
  places := only.pending ▸ tables.places
  calls := only.calls ▸ tables.calls
  inits := only.inits tables.inits

theorem Core.only (core : Core p s) (only : Only p irq s s') (good : Good p s' irq)
    (bound : irq < maxIrqForward) (alone : InUse (s.lines irq) ∨ Clear p s irq) : Core p s' := by
  have clear : Clear p s irq := alone.elim (core.apart irq bound) id
  refine ⟨only.wheel.heap, fun other bound' => ?_, fun other bound' inUse => ?_,
    only.tables core.tables⟩
  · by_cases here : other = irq
    · exact here ▸ good
    have old := core.lines other bound'
    have alike := only.wheel.others other here
    unfold Good at old ⊢
    rw [only.lines other here]
    refine { old with live := fun inUse => ?_, rest := fun off => ?_ }
    · have apart := clear other bound' here inUse
      rw [only.opens other apart]
      exact (old.live inUse).imp_right fun ⟨masked, awaited⟩ =>
        ⟨masked, only.wheel.awaited here awaited⟩
    · rw [alike.armed]
      exact old.rest off
  · intro third bound'' different inUse'
    by_cases here : other = irq
    · rw [here] at different ⊢
      rw [only.lines third different] at inUse'
      exact clear third bound'' different inUse'
    · rw [only.lines other here] at inUse
      by_cases there : third = irq
      · rw [there]
        exact Ne.symm (clear other bound' here inUse)
      · rw [only.lines third there] at inUse'
        exact core.apart other bound' inUse third bound'' different inUse'

theorem Core.stepped (core : Core p s) (stepped : Stepped p irq s s') (bound : irq < maxIrqForward)
    (alone : InUse (s.lines irq) ∨ Clear p s irq) : Core p s' :=
  core.only stepped.only stepped.good bound alone

theorem Stepped.resolving (stepped : Stepped p irq s s')
    (resolving : Resolving s) : Resolving s' := by
  intro other bound probing
  rw [stepped.only.pendingCount]
  by_cases here : other = irq
  · subst here
    exact resolving other bound (stepped.probe probing)
  · rw [stepped.only.lines other here] at probing
    exact resolving other bound probing

theorem Core.retable (core : Core p s) (lines : s'.lines = s.lines) (ctl : s'.ctl = s.ctl)
    (wheel : s'.wheel = s.wheel) (tables : Tables p s') : Core p s' := by
  refine ⟨wheel ▸ core.heap, fun irq bound => ?_, fun irq bound inUse => ?_, tables⟩
  · have old := core.lines irq bound
    unfold Good at old ⊢
    rwa [lines, ctl, wheel]
  · intro other bound' different inUse'
    rw [lines] at inUse inUse'
    exact core.apart irq bound inUse other bound' different inUse'

theorem Core.attach (core : Core p s) (bound : irq < maxIrqForward)
    (attachable : Attachable p s irq) (pid port : Nat) :
    Core p (irqAttachSharer p s irq pid port).1 ∧
      Stepped p irq s (irqAttachSharer p s irq pid port).1 := by
  have good := core.lines irq bound
  have facts : (s.lines irq).probeArmed = false ∧ wired p irq = true ∧
      (InUse (s.lines irq) ∨ Clear p s irq) := by
    rcases Nat.eq_zero_or_pos (s.lines irq).sharerCount with none | sharer
    · obtain ⟨noProbe, there, clear⟩ := attachable none
      exact ⟨noProbe, there, .inr clear⟩
    · refine ⟨Bool.eq_false_iff.mpr fun probing => ?_, good.wired sharer, .inl (.inl sharer)⟩
      have none := (good.probing probing).1
      omega
  have stepped := irqAttachSharer_stepped core.heap good facts.1 facts.2.1 pid port
  exact ⟨core.stepped stepped bound facts.2.2, stepped⟩

/-! ### Discovery -/

theorem Core.armLines (ioapic : p.ioapic = true) (gsis : List Nat) (core : Core p s)
    (clear : Discoverable p s) (pci : ∀ gsi ∈ gsis, 16 ≤ gsi ∧ gsi < maxIrqForward) :
    Core p (gsis.foldl (armLine p) s) ∧
      (gsis.foldl (armLine p) s).pciPendingCount = s.pciPendingCount := by
  induction gsis generalizing s with
  | nil => exact ⟨core, rfl⟩
  | cons gsi _ ih =>
    obtain ⟨low, high⟩ := pci gsi mem_cons_self
    obtain ⟨only, good⟩ := armLine_good core.heap ioapic (core.lines gsi high) low
    have own : ∀ {line}, 16 ≤ line → input p line = line := fun isPci => by
      simp [input, ioapic, p.isa _ isPci]
    have next : Core p (armLine p s gsi) := by
      by_cases covered : p.covers gsi = true
      · by_cases inUse : InUse (s.lines gsi)
        · exact core.only only good high (.inl inUse)
        refine core.only only good high (.inr ?_)
        intro other bound different used
        rw [own low]
        by_cases isa : other < 16
        · exact clear other isa used gsi low high covered
        · rw [own (Nat.le_of_not_lt isa)]
          exact different
      · have same : armLine p s gsi = s := if_pos (by simpa using covered)
        rw [same]
        exact core
    have stays : Discoverable p (armLine p s gsi) := by
      intro line isa inUse
      rw [only.lines line (by omega)] at inUse
      exact clear line isa inUse
    obtain ⟨last, count⟩ := ih next stays fun g member => pci g (mem_cons_of_mem _ member)
    exact ⟨last, count.trans only.pendingCount⟩

theorem Core.disarmLines (gsis : List Nat) (core : Core p s)
    (pci : ∀ gsi ∈ gsis, gsi < maxIrqForward) :
    Core p (gsis.foldl (disarmLine p) s) ∧ (∀ irq, (s.lines irq).probeArmed = false →
        ((gsis.foldl (disarmLine p) s).lines irq).probeArmed = false) ∧
      ∀ gsi ∈ gsis, ((gsis.foldl (disarmLine p) s).lines gsi).probeArmed = false := by
  induction gsis generalizing s with
  | nil => exact ⟨core, fun _ => id, nofun⟩
  | cons gsi _ ih =>
    have high := pci gsi mem_cons_self
    obtain ⟨stepped, gone⟩ := disarmLine_stepped core.heap (core.lines gsi high)
    have next : Core p (disarmLine p s gsi) := by
      by_cases probing : (s.lines gsi).probeArmed = true
      · exact core.stepped stepped high (.inl (.inr probing))
      have same : disarmLine p s gsi = s := if_pos (.inl (by simpa using probing))
      rw [same]
      exact core
    obtain ⟨last, kept, rest⟩ := ih next fun g member => pci g (mem_cons_of_mem _ member)
    refine ⟨last, fun irq noProbe => kept irq ?_, fun g member => ?_⟩
    · by_cases here : irq = gsi
      · rw [here]
        exact gone
      · rw [stepped.only.lines irq here]
        exact noProbe
    · rcases mem_cons.mp member with rfl | later
      · exact kept g gone
      · exact rest g later

theorem Core.disarm (core : Core p s) :
    Core p (pciDiscoveryDisarmUnbound p s) ∧ Resolving (pciDiscoveryDisarmUnbound p s) := by
  obtain ⟨last, _, rest⟩ := Core.disarmLines (List.range' 16 16) core fun gsi member => by
      rw [mem_range'_1] at member
      exact member.2
  refine ⟨last, fun irq bound probing => ?_⟩
  have isPci := ((last.lines irq bound).probing probing).2.2.1
  have gone := rest irq (mem_range'_1.mpr ⟨isPci, bound⟩)
  cases gone.symm.trans probing

/-! ### The tables -/

theorem mem_modify {α : Type} {f : α → α} {l : List α} {i : Nat} {x : α}
    (member : x ∈ l.modify i f) : x ∈ l ∨ ∃ y ∈ l, x = f y := by
  obtain ⟨j, bound, rfl⟩ := getElem_of_mem member
  rw [getElem_modify]
  have bound' : j < l.length := by simpa using bound
  split
  · exact .inr ⟨l[j], getElem_mem bound', rfl⟩
  · exact .inl (getElem_mem bound')

theorem Tables.bindingPut (tables : Tables p s) (ioapic : p.ioapic = true) {gsi : Nat}
    (low : 16 ≤ gsi) (high : gsi < maxIrqForward) (covered : p.covers gsi = true) (bdf : Bdf) :
    Tables p (pciBindingPut s bdf gsi) := by
  unfold pciBindingPut
  split
  · refine ⟨fun x member used => ?_, tables.pending, tables.count,
      tables.places, tables.calls, tables.inits⟩
    rcases mem_modify member with old | ⟨y, _, rfl⟩
    · exact tables.bindings x old used
    · exact ⟨ioapic, low, high, covered⟩
  · split
    · exact tables
    refine ⟨fun x member used => ?_, tables.pending, tables.count,
      tables.places, tables.calls, tables.inits⟩
    rcases mem_or_eq_of_mem_set member with old | rfl
    · exact tables.bindings x old used
    · exact ⟨ioapic, low, high, covered⟩

theorem bindingPut_same (s : State) (bdf : Bdf) (gsi : Nat) :
    (pciBindingPut s bdf gsi).lines = s.lines ∧
    (pciBindingPut s bdf gsi).ctl = s.ctl ∧ (pciBindingPut s bdf gsi).wheel = s.wheel ∧
      (pciBindingPut s bdf gsi).pciPending = s.pciPending ∧
      (pciBindingPut s bdf gsi).pciPendingCount = s.pciPendingCount := by
  unfold pciBindingPut
  split
  · exact ⟨rfl, rfl, rfl, rfl, rfl⟩
  · split <;> exact ⟨rfl, rfl, rfl, rfl, rfl⟩

theorem Tables.lookup (tables : Tables p s) {bdf : Bdf} {gsi : Nat}
    (found : pciBindingLookup s bdf = some gsi) : gsi < maxIrqForward := by
  obtain ⟨x, isFirst, rfl⟩ := map_eq_some_iff.mp found
  have holds := List.find?_some isFirst
  simp only [Bool.and_eq_true] at holds
  exact (tables.bindings x (mem_of_find?_eq_some isFirst) holds.1).2.2.1

theorem Tables.pendingAdd (tables : Tables p s) (ioapic : p.ioapic = true)
    (pid port : Nat) (bdf : Bdf) : Tables p (pciPendingAdd s pid port bdf) ∧
      0 < (pciPendingAdd s pid port bdf).pciPendingCount := by
  unfold pciPendingAdd
  split
  · next i found =>
      obtain ⟨x, here, holds⟩ := findIdx?_spec found
      simp only [Bool.and_eq_true] at holds
      have same := countP_modify (q := Pending.used)
        (f := fun x => { x with notifyPort := port }) here
      refine ⟨⟨tables.bindings, fun _ _ _ => ioapic, ?_, ?_, tables.calls, tables.inits⟩, ?_⟩
      · have count := tables.count
        simp only at same ⊢
        omega
      · simpa using tables.places
      · show 0 < s.pciPendingCount
        rw [tables.count]
        exact countP_pos_iff.mpr ⟨x, mem_of_getElem? here, holds.1.1⟩
  · split
    · next full =>
        refine ⟨tables, ?_⟩
        obtain ⟨x, rest, isList⟩ := exists_cons_of_ne_nil tables.places
        rw [tables.count]
        refine countP_pos_iff.mpr ⟨x, by simp [isList], ?_⟩
        have used := List.findIdx?_eq_none_iff.mp full x (by simp [isList])
        simpa using used
    · next i found =>
        obtain ⟨x, here, unused⟩ := findIdx?_spec found
        have unused : x.used = false := by simpa using unused
        have more := countP_set (q := Pending.used) (a := ⟨true, pid, port, bdf⟩) here
        rw [unused] at more
        refine ⟨⟨tables.bindings, fun _ _ _ => ioapic, ?_, ?_, tables.calls,
          tables.inits⟩, Nat.succ_pos _⟩
        · have count := tables.count
          simp only [Bool.toNat_false, Bool.toNat_true] at more ⊢
          omega
        · simpa using tables.places

theorem pendingAdd_same (s : State) (pid port : Nat) (bdf : Bdf) :
    (pciPendingAdd s pid port bdf).lines = s.lines ∧ (pciPendingAdd s pid port bdf).ctl = s.ctl ∧
      (pciPendingAdd s pid port bdf).wheel = s.wheel := by
  unfold pciPendingAdd
  split
  · exact ⟨rfl, rfl, rfl⟩
  · split <;> exact ⟨rfl, rfl, rfl⟩

theorem countP_drop (pid : Nat) (l : List Pending) :
    (l.map fun x => if x.used = true ∧ x.pid = pid then
      { x with used := false } else x).countP Pending.used +
        l.countP (fun x => x.used && x.pid == pid) =
      l.countP Pending.used := by
  induction l with
  | nil => rfl
  | cons x =>
    have here : (if Pending.used (if x.used = true ∧ x.pid = pid then
          { x with used := false } else x) = true then 1 else 0) +
        (if (x.used && x.pid == pid) = true then 1 else 0) = if x.used = true then 1 else 0 := by
      by_cases used : x.used = true
      · by_cases mine : x.pid = pid <;> simp [used, mine]
      · simp [used]
    simp only [map_cons, countP_cons]
    omega

theorem Tables.dropPending (tables : Tables p s) (pid : Nat) : Tables p (dropPending s pid) where
  bindings := tables.bindings
  pending := by
    intro x member used
    obtain ⟨y, old, rfl⟩ := mem_map.mp member
    refine tables.pending y old ?_
    split at used
    · cases used
    · exact used
  count := by
    have same := countP_drop pid s.pciPending
    have count := tables.count
    simp only [IrqLines.dropPending]
    omega
  places := by
    have places := tables.places
    simpa [IrqLines.dropPending] using places
  calls := tables.calls
  inits := tables.inits

/-! ### Calls -/

section

variable (core : Core p s)
include core

theorem attach_inv (resolving : Resolving s) (bound : irq < maxIrqForward)
    (attachable : Attachable p s irq) (pid port : Nat) : Core p
    (irqAttachSharer p s irq pid port).1 ∧ Resolving (irqAttachSharer p s irq pid port).1 := by
  obtain ⟨core', stepped⟩ := core.attach bound attachable pid port
  exact ⟨core', stepped.resolving resolving⟩

theorem resolvePci_inv (resolving : Resolving s) {thread : Nat} {call : Call}
    (isCall : s.calls thread = some call) {answer : Option Nat}
    (attachable : ∀ gsi, answer = some gsi → Answered p gsi → Attachable p s gsi)
    (discoverable : (∀ gsi, answer = some gsi → ¬ Answered p gsi) → Discoverable p s) :
    Core p (resolvePci p s thread call answer) ∧ Resolving (resolvePci p s thread call answer) := by
  have ioapic := core.tables.calls thread call isCall
  have core' : Core p { s with calls := update s.calls thread none } := by
    have tables := core.tables
    refine core.retable rfl rfl rfl { tables with calls := fun other c found => ?_ }
    by_cases here : other = thread
    · simp [here] at found
    have found : update s.calls thread none other = some c := found
    rw [update_of_ne here] at found
    exact tables.calls other c found
  have discovery : Discoverable p s → Core p (pciDiscoveryArm p (pciPendingAdd { s with
      calls := update s.calls thread none } call.pid call.port call.bdf)) ∧
      Resolving (pciDiscoveryArm p (pciPendingAdd { s with
        calls := update s.calls thread none } call.pid call.port call.bdf)) := by
    intro apart
    obtain ⟨tables, some'⟩ := core'.tables.pendingAdd ioapic call.pid call.port call.bdf
    obtain ⟨lines, ctl, wheel⟩ := pendingAdd_same { s with
      calls := update s.calls thread none } call.pid call.port call.bdf
    have added := core'.retable lines ctl wheel tables
    obtain ⟨last, count⟩ := Core.armLines ioapic (List.range' 16 16) added (fun line isa inUse => by
        rw [lines] at inUse
        exact apart line isa inUse)
      fun gsi member => mem_range'_1.mp member
    exact ⟨last, fun _ _ _ => Nat.lt_of_lt_of_eq some' count.symm⟩
  unfold resolvePci
  cases answer with
  | none => exact discovery (discoverable nofun)
  | some gsi =>
    dsimp only
    split
    · next answered =>
        obtain ⟨low, high, covered⟩ := answered
        obtain ⟨lines, ctl, wheel, _, count⟩ := bindingPut_same { s with
          calls := update s.calls thread none } call.bdf gsi
        have put := core'.retable lines ctl wheel
          (core'.tables.bindingPut ioapic low high covered call.bdf)
        refine attach_inv put (fun other bound probing => ?_) high ?_ _ _
        · rw [lines] at probing
          rw [count]
          exact resolving other bound probing
        · have able := attachable gsi rfl ⟨low, high, covered⟩
          unfold Attachable Clear at able ⊢
          rw [lines]
          exact able
    · next unanswered =>
        refine discovery (discoverable fun other isAnswer => ?_)
        cases isAnswer
        exact unanswered

theorem endResolution_core {gsi place : Nat} {pending : Pending} (low : 16 ≤ gsi)
    (high : gsi < maxIrqForward) (covered : p.covers gsi = true)
    (here : s.pciPending[place]? = some pending) (used : pending.used = true)
    (alone : ¬ InUse (s.lines gsi) → Clear p s gsi) : Core p (endResolution s gsi place pending) ∧
      Attachable p (endResolution s gsi place pending) gsi := by
  have good := core.lines gsi high
  have ioapic := core.tables.pending pending (mem_of_getElem? here) used
  -- The line after the two writes, before the tables change.
  have line : ∃ s₁, Stepped p gsi s s₁ ∧ (s₁.lines gsi).probeArmed = false ∧
      endResolution s gsi place pending = { pciBindingPut s₁ pending.bdf gsi with
          pciPending := (pciBindingPut s₁ pending.bdf gsi).pciPending.modify
            place fun x => { x with used := false }
          pciPendingCount :=
            (pciBindingPut s₁ pending.bdf gsi).pciPendingCount - 1 } := by
    refine ⟨_, ?_, ?_, rfl⟩
    · refine ⟨?_, ?_, ?_⟩
      · split
        · exact ((Only.refl core.heap).cancelTimer.setLine _).setLine _
        · exact (Only.refl core.heap).setLine _
      · unfold Good
        split
        · next none =>
            simp only [State.setLine, State.cancelTimer, update_self]
            exact .unused good.count none rfl rfl rfl (Touches.cancel core.heap gsi).2
        next some' =>
          have sharer := Nat.pos_of_ne_zero some'
          simp only [State.setLine, update_self]
          exact {
            count := good.count
            debts := good.debts
            idle := good.idle
            probing := fun armed => by cases armed
            wired := good.wired
            live := fun _ => good.live (.inl sharer)
            rest := fun off => absurd (.inl sharer) off }
      · intro probing
        simp only [State.setLine, update_self] at probing
        cases probing
    · simp only [State.setLine, update_self]
  obtain ⟨s₁, stepped, noProbe, result⟩ := line
  have clear : Clear p s gsi := by
    by_cases inUse : InUse (s.lines gsi)
    · exact core.apart gsi high inUse
    · exact alone inUse
  have core₁ := core.stepped stepped high (.inr clear)
  obtain ⟨lines, ctl, wheel, isPending, count⟩ := bindingPut_same s₁ pending.bdf gsi
  have put := core₁.tables.bindingPut ioapic low high covered pending.bdf
  rw [result]
  constructor
  · refine core₁.retable lines ctl wheel { put with
      pending := fun x member isUsed => ?_
      count := ?_
      places := ?_ }
    · exact ioapic
    · have less := countP_modify (q := Pending.used) (f := fun x => { x with used := false }) here
      have before := core.tables.count
      rw [used] at less
      rw [isPending, count, stepped.only.pending, stepped.only.pendingCount]
      simp only [Bool.toNat_true, Bool.toNat_false] at less ⊢
      omega
    · rw [isPending, stepped.only.pending]
      have places := core.tables.places
      simpa using places
  · intro _
    refine ⟨?_, by simp [wired, p.isa gsi low, covered], fun other bound different inUse => ?_⟩
    · rw [← noProbe]
      exact congrArg Line.probeArmed (congrFun lines gsi)
    · have inUse : InUse ((pciBindingPut s₁ pending.bdf gsi).lines other) := inUse
      rw [lines, stepped.only.lines other different] at inUse
      exact clear other bound different inUse

theorem sysIrqPciClaim_inv (resolving : Resolving s)
    {pid gsi : Nat} (alone : ¬ InUse (s.lines gsi) → Clear p s gsi) :
    Core p (sysIrqPciClaim p s pid gsi) ∧ Resolving (sysIrqPciClaim p s pid gsi) := by
  unfold sysIrqPciClaim
  split
  · exact ⟨core, resolving⟩
  next range =>
    simp only [not_or, Nat.not_lt, Nat.not_le, Bool.not_eq_false] at range
    obtain ⟨low, high, covered⟩ := range
    split
    · exact ⟨core, resolving⟩
    next place found =>
      obtain ⟨pending, here, holds⟩ := findIdx?_spec found
      simp only [Bool.and_eq_true] at holds
      rw [here]
      dsimp only
      obtain ⟨core', attachable⟩ := endResolution_core core low high covered here holds.1 alone
      obtain ⟨last, _⟩ := core'.attach high attachable pid pending.notifyPort
      split
      · exact last.disarm
      · next some' => exact ⟨last, fun _ _ _ => Nat.pos_of_ne_zero some'⟩

end

theorem cleanLines_inv (pid : Nat) (irqs : List Nat) (core : Core p s)
    (resolving : Resolving s) (bounds : ∀ irq ∈ irqs, irq < maxIrqForward) :
    Core p (irqs.foldl (cleanLine p pid) s) ∧ Resolving (irqs.foldl (cleanLine p pid) s) := by
  induction irqs generalizing s with
  | nil => exact ⟨core, resolving⟩
  | cons irq _ ih =>
    have bound := bounds irq mem_cons_self
    have stepped := cleanLine_stepped core.heap (core.lines irq bound) pid
    have next : Core p (cleanLine p pid s irq) := by
      cases found : sharerOf (s.lines irq) pid with
      | none =>
        have same : cleanLine p pid s irq = s := by simp only [cleanLine, found]
        rw [same]
        exact core
      | some =>
        obtain ⟨_, here, used, _⟩ := sharerOf_spec found
        exact core.stepped stepped bound (.inl (.inl ((core.lines irq bound).counted here used)))
    exact ih next (stepped.resolving resolving)
      fun other member => bounds other (mem_cons_of_mem _ member)

section

variable (core : Core p s)
include core

theorem irqCleanup_inv (resolving : Resolving s) (pid : Nat) :
    Core p (irqCleanup p s pid) ∧ Resolving (irqCleanup p s pid) := by
  have dropped : Core p (dropPending s pid) :=
    core.retable rfl rfl rfl (core.tables.dropPending pid)
  have disarmed : Core p (if (s.pciPending.any fun x =>
        x.used && x.pid == pid) = true ∧ (dropPending s pid).pciPendingCount = 0
      then pciDiscoveryDisarmUnbound p (dropPending s pid)
      else dropPending s pid) ∧
    Resolving (if (s.pciPending.any fun x =>
        x.used && x.pid == pid) = true ∧ (dropPending s pid).pciPendingCount = 0
      then pciDiscoveryDisarmUnbound p (dropPending s pid)
      else dropPending s pid) := by
    split
    · exact dropped.disarm
    next kept =>
      refine ⟨dropped, fun irq bound probing => ?_⟩
      by_cases removed : (s.pciPending.any fun x => x.used && x.pid == pid) = true
      · exact Nat.pos_of_ne_zero fun none => kept ⟨removed, none⟩
      have none : s.pciPending.countP (fun x => x.used && x.pid == pid) = 0 := by
        rw [countP_eq_zero]
        intro x member holds
        exact removed (any_eq_true.mpr ⟨x, member, holds⟩)
      have before := resolving irq bound probing
      simp only [dropPending, none]
      exact before
  have bounds : ∀ irq ∈ List.range maxIrqForward, irq < maxIrqForward :=
    fun irq member => mem_range.mp member
  unfold irqCleanup
  generalize List.range maxIrqForward = irqs at bounds ⊢
  exact cleanLines_inv pid irqs disarmed.1 disarmed.2 bounds

/-! ### Steps -/

theorem Core.returned {cpu clock : Nat} (found : s.wheel.drains cpu = some ⟨clock, .calling irq⟩)
    (settled : LineOk p irq (s.lines irq) (isOpen p s.ctl irq)
      (s.wheel.armed irq) (s.wheel.armed irq = true)) :
    Core p { s with
      wheel := (s.wheel.note (.fired cpu irq)).setDrain cpu (some ⟨clock, .returning irq⟩) } := by
  refine ⟨?_, fun other bound => ?_, core.apart, { core.tables with }⟩
  · obtain ⟨indexed, ordered, members, room, least⟩ := core.heap
    exact ⟨indexed, ordered, members, room, least⟩
  by_cases here : other = irq
  · subst here
    exact { settled with live := fun inUse =>
      (settled.live inUse).imp_right fun ⟨masked, armed⟩ => ⟨masked, .inl armed⟩ }
  have old := core.lines other bound
  refine { old with live := fun inUse => ?_ }
  refine (old.live inUse).imp_right fun ⟨masked, awaited⟩ => ⟨masked, ?_⟩
  refine @Awaited.redrain s.wheel _ other cpu
    (some ⟨clock, .returning irq⟩) awaited ⟨rfl, rfl, rfl⟩ rfl ?_
  rintro now (same | same)
  · rw [found] at same
    cases same
    exact absurd rfl here
  · rw [found] at same
    cases same

section

variable (resolving : Resolving s)
include resolving

theorem callback_inv {cpu now : Nat} {growths : List (Nat → Nat)}
    (taken : callback p s cpu now growths = some s') : Core p s' ∧ Resolving s' := by
  unfold callback at taken
  split at taken
  · next clock irq found =>
      split at taken
      · next bound =>
          have good := core.lines irq bound
          obtain ⟨only, settled, probe⟩ := irqLineWatchdog_stepped core.heap good
            (resolving irq bound) now growths
          have good' : Good p (irqLineWatchdog p s irq now growths) irq :=
            { settled with live := fun inUse =>
              (settled.live inUse).imp_right fun ⟨masked, armed⟩ => ⟨masked, .inl armed⟩ }
          have core' : Core p (irqLineWatchdog p s irq now growths) := by
            by_cases inUse : InUse (s.lines irq)
            · exact core.only only good' bound (.inl inUse)
            have same : irqLineWatchdog p s irq now growths = s := if_pos (good.rest inUse).2
            rw [same]
            exact core
          have resolving' : Resolving (irqLineWatchdog p s irq now growths) :=
            Stepped.resolving ⟨only, good', probe⟩ resolving
          have found' : (irqLineWatchdog p s irq now growths).wheel.drains cpu =
              some ⟨clock, .calling irq⟩ := by
            rw [only.wheel.drains]
            exact found
          simp only [Timers.exec, found', map_some, Option.some.injEq] at taken
          rw [← taken]
          exact ⟨core'.returned found' settled, resolving'⟩
      · cases taken
  · cases taken

theorem wheel_inv {label : Timers.Label} {wheel : Timers.State}
    (isForeign : foreign s.wheel label = true) (taken : Timers.exec s.wheel label = some wheel) :
    Core p { s with wheel := wheel } ∧ Resolving { s with wheel := wheel } := by
  obtain ⟨heap, kept⟩ := foreign_section core.heap isForeign taken
  refine ⟨⟨heap, fun irq bound => ?_, core.apart, { core.tables with }⟩, resolving⟩
  obtain ⟨awaited, unarmed⟩ := kept irq bound
  have old := core.lines irq bound
  exact { old with
    live := fun inUse => (old.live inUse).imp_right fun ⟨masked, waits⟩ => ⟨masked, awaited waits⟩
    rest := fun off => ⟨unarmed (old.rest off).1, (old.rest off).2⟩ }

theorem fire_inv (irq now : Nat) (growths : List (Nat → Nat)) :
    Core p (irqForwardHandler p s irq now growths) ∧
      Resolving (irqForwardHandler p s irq now growths) := by
  by_cases bound : irq < maxIrqForward
  · have stepped := irqForwardHandler_stepped core.heap (core.lines irq bound) now growths
    refine ⟨?_, stepped.resolving resolving⟩
    by_cases inUse : InUse (s.lines irq)
    · exact core.stepped stepped bound (.inl inUse)
    have same : irqForwardHandler p s irq now growths = s := by
      unfold irqForwardHandler
      rw [if_neg (Nat.not_le.mpr bound), if_neg fun sharer => inUse (.inl sharer),
        if_neg fun probing => inUse (.inr probing.1)]
    rw [same]
    exact core
  · have same : irqForwardHandler p s irq now growths = s := if_pos (Nat.le_of_not_lt bound)
    rw [same]
    exact ⟨core, resolving⟩

theorem irqLineAck_inv (bound : irq < maxIrqForward) (pid : Nat) (handled : Bool) :
    Core p (irqLineAck p s irq pid handled).1 ∧ Resolving (irqLineAck p s irq pid handled).1 := by
  have good := core.lines irq bound
  have stepped := irqLineAck_stepped core.heap good pid handled
  refine ⟨?_, stepped.resolving resolving⟩
  cases found : sharerOf (s.lines irq) pid with
  | none =>
    have same : irqLineAck p s irq pid handled = (s, false) := by simp only [irqLineAck, found]
    rw [same]
    exact core
  | some =>
    obtain ⟨_, here, used, _⟩ := sharerOf_spec found
    exact core.stepped stepped bound (.inl (.inl (good.counted here used)))

end

end

/-- What every run keeps. -/
structure Inv (p : Platform) (s : State) : Prop where
  core : Core p s
  resolving : Resolving s

theorem Inv.initial (p : Platform) (ctl : Controller) : Inv p (initial ctl) where
  core := {
    heap := .initial
    lines := fun _ _ => .unused rfl rfl rfl rfl rfl rfl
    apart := by
      rintro irq _ (sharer | probing)
      · cases sharer
      · cases probing
    tables := {
      bindings := fun x member used => by
        rw [eq_of_mem_replicate member] at used
        cases used
      pending := fun x member used => by
        rw [eq_of_mem_replicate member] at used
        cases used
      count := rfl
      places := nofun
      calls := nofun
      inits := nofun } }
  resolving := nofun

theorem Inv.preserved (inv : Inv p s) {label : Label}
    (next : Guarded (step p) (Guard p) s label s') : Inv p s' := by
  obtain ⟨core, resolving⟩ := inv
  obtain ⟨taken, guard⟩ := next
  have wrap : Core p s' ∧ Resolving s' → Inv p s' := fun both => ⟨both.1, both.2⟩
  refine wrap ?_
  cases label with
  | fire irq now growths =>
    obtain rfl := Option.some.inj taken
    exact fire_inv core resolving irq now growths
  | irqDone pid =>
    simp only [step, exec] at taken
    split at taken
    · next bound =>
        obtain rfl := Option.some.inj taken
        exact irqLineAck_inv core resolving bound pid _
    · obtain rfl := Option.some.inj taken
      exact ⟨core, resolving⟩
  | irqRegister pid _ port =>
    simp only [step, exec] at taken
    split at taken
    · next bound =>
        obtain rfl := Option.some.inj taken
        exact attach_inv core resolving bound (guard bound) pid port.toNat
    · obtain rfl := Option.some.inj taken
      exact ⟨core, resolving⟩
  | registerPci _ pid _ port =>
    simp only [step, exec, ite_none_right_eq_some, Option.some.injEq] at taken
    rw [← taken.2]
    simp only [Guard] at guard
    unfold sysIrqRegisterPci
    split
    · next pic =>
        rw [if_pos pic] at guard
        split
        · exact ⟨core, resolving⟩
        next range =>
          simp only [not_or, Nat.not_le] at range
          exact attach_inv core resolving (Nat.lt_of_lt_of_le range.2 (by decide))
            (guard range.1 range.2) pid port.toNat
    · next ioapic =>
        rw [if_neg ioapic] at guard
        split
        · next gsi found =>
            exact attach_inv core resolving (core.tables.lookup found)
              (guard gsi found) pid port.toNat
        · have tables := core.tables
          refine ⟨core.retable rfl rfl rfl { tables with
            calls := fun _ _ _ => by simpa using ioapic }, resolving⟩
  | resolve =>
    obtain ⟨_, isCall, rfl⟩ := map_eq_some_iff.mp taken
    refine resolvePci_inv core resolving isCall (fun gsi isAnswer => ?_) fun unanswered =>
      guard.2 fun gsi8 isAnswer => unanswered _ (by rw [isAnswer]; rfl)
    obtain ⟨gsi8, isSome, rfl⟩ := map_eq_some_iff.mp isAnswer
    exact guard.1 gsi8 isSome
  | pciClaim =>
    obtain rfl := Option.some.inj taken
    exact sysIrqPciClaim_inv core resolving guard
  | cleanup pid =>
    obtain rfl := Option.some.inj taken
    exact irqCleanup_inv core resolving pid
  | callback => exact callback_inv core resolving taken
  | wheel =>
    simp only [step, exec, ite_none_right_eq_some, map_eq_some_iff] at taken
    obtain ⟨isForeign, _, ran, rfl⟩ := taken
    exact wheel_inv core resolving isForeign ran

/-! ### The protocol -/

/-- The line protocol: the reports that are owed for the fire of a masked line
with sharers are counted (`debts`); a line with a sharer, or one that is armed
for discovery while a driver is resolving, is unmasked in the controller, or its
safety timer is armed or was taken by a drain that is going to call
`irq_line_watchdog` (`live`); and `timer_init` was never applied to an armed
safety timer (`inits`). -/
structure Protocol (p : Platform) (s : State) : Prop where
  debts : ∀ irq, irq < maxIrqForward →
    (∃ x ∈ (s.lines irq).sharers, x.used = true) → (s.lines irq).masked = true →
    (s.lines irq).pendingDone = (s.lines irq).sharers.countP Sharer.owes
  live : ∀ irq, irq < maxIrqForward → ((∃ x ∈ (s.lines irq).sharers, x.used = true) ∨
      (s.lines irq).probeArmed = true ∧ ∃ x ∈ s.pciPending, x.used = true) →
    isOpen p s.ctl irq = true ∨ Awaited s.wheel irq
  inits : ∀ x ∈ s.inits, x.2 = false

theorem Inv.protocol (inv : Inv p s) : Protocol p s where
  debts := fun irq bound _ => (inv.core.lines irq bound).debts
  live := by
    intro irq bound waits
    have good := inv.core.lines irq bound
    have inUse : InUse (s.lines irq) := by
      rcases waits with ⟨x, member, used⟩ | ⟨probing, _⟩
      · refine .inl ?_
        rw [good.count]
        exact countP_pos_iff.mpr ⟨x, member, used⟩
      · exact .inr probing
    exact (good.live inUse).imp_right And.right
  inits := inv.core.tables.inits

/-- In every run that registers drivers on lines that are not armed for
discovery, and whose lines in use have inputs of their own, the lines keep their
protocol. -/
theorem irq_line_protocol {ctl : Controller} {labels : List Label}
    (run : Steps (Guarded (step p) (Guard p)) (initial ctl) labels s) : Protocol p s := by
  have inv : Inv p s := run.invariant (fun _ _ _ old next => old.preserved next) (.initial p ctl)
  exact inv.protocol

end Runs

/-! ### Runs that break the protocol, and one that meets the condition -/

/-- A machine with one IOAPIC of 24 inputs and no overrides. -/
def board : Platform := ⟨true, id, fun gsi => gsi < 24, fun _ _ => rfl⟩

/-- Every line is masked. -/
def dark : Controller := ⟨fun _ => false, fun _ => false⟩

/-- Driver 1 resolves its line, and driver 2 registers on line 16, which is armed
for discovery, and dies. -/
def wedged : List Label :=
  [.registerPci 1 1 0x1800 5 0, .resolve 1 none, .irqRegister 2 16 6, .cleanup 2]

/-- Driver 1 resolves its line, line 16 fires, and driver 2 registers on it. -/
def reinitialised : List Label :=
  [.registerPci 1 1 0x1800 5 0, .resolve 1 none, .fire 16 0 [], .irqRegister 2 16 6]

set_option maxRecDepth 20000 in
/-- A line that is armed for discovery stays masked while a driver is resolving,
and an armed safety timer is initialised. -/
theorem irq_line_protocol_fails :
    (∃ s, Steps (step board) (initial dark) wedged s ∧ ¬ Protocol board s) ∧
    ∃ s, Steps (step board) (initial dark) reinitialised s ∧ ¬ Protocol board s := by
  have wedge : (followRun (exec board) (initial dark) wedged).map (fun s =>
      ((s.lines 16).probeArmed, isOpen board s.ctl 16, s.wheel.armed 16,
        s.pciPending.any Pending.used)) = some (true, false, false, true) := by
    decide +kernel
  have still : (followRun (exec board) (initial dark) wedged).map (fun s =>
      s.wheel.drains) = some fun _ => none := by
    rfl
  have again : (followRun (exec board) (initial dark) reinitialised).map
      State.inits = some [(16, true)] := by
    decide +kernel
  obtain ⟨s, result, seen⟩ := map_eq_some_iff.mp wedge
  obtain ⟨t, run', seen'⟩ := Steps.of_followed again
  refine ⟨⟨s, .of_followRun result, fun protocol => ?_⟩, t, run', fun protocol => ?_⟩
  · simp only [Prod.mk.injEq] at seen
    obtain ⟨probing, closed, unarmed, resolving⟩ := seen
    have drains : s.wheel.drains = fun _ => none := by
      rw [result] at still
      exact Option.some.inj still
    rcases protocol.live 16 (by decide)
      (.inr ⟨probing, any_eq_true.mp resolving⟩) with opened | awaited
    · cases closed.symm.trans opened
    rcases awaited with armed | ⟨cpu, now, taken⟩
    · cases unarmed.symm.trans armed
    · rw [drains] at taken
      rcases taken with found | found <;> cases found
  · cases protocol.inits (16, true) (by rw [seen']; exact mem_singleton_self _)

/-- A test that is enough for the condition. -/
def guardCheck (p : Platform) (s : State) : Label → Bool
  | .irqRegister _ irq _ => decide (0 < (s.lines irq.toNat).sharerCount)
  | .registerPci _ _ bsf _ _ =>
    p.ioapic && (pciBindingLookup s (.ofReg bsf.toNat)).isNone
  | .resolve _ answer =>
    answer.isNone && (List.range 16).all fun line =>
      (s.lines line).sharerCount == 0 && !(s.lines line).probeArmed
  | .pciClaim _ gsi => (s.lines gsi.toNat).probeArmed
  | _ => true

theorem guardCheck_sound {p : Platform} {s : State} {label : Label}
    (passed : guardCheck p s label = true) : Guard p s label := by
  cases label with
  | irqRegister =>
    intro _ none
    have some' := of_decide_eq_true passed
    omega
  | registerPci =>
    simp only [guardCheck, Bool.and_eq_true, isNone_iff_eq_none] at passed
    rw [Guard, if_neg (by simp [passed.1])]
    intro gsi found
    cases passed.2.symm.trans found
  | resolve =>
    simp only [guardCheck, Bool.and_eq_true, isNone_iff_eq_none,
      List.all_eq_true, mem_range, beq_iff_eq, Bool.not_eq_true']
      at passed
    refine ⟨fun gsi isAnswer => ?_, fun _ line isa inUse => ?_⟩
    · cases passed.1.symm.trans isAnswer
    obtain ⟨noSharer, noProbe⟩ := passed.2 line isa
    rcases inUse with sharer | probing
    · omega
    · cases noProbe.symm.trans probing
  | pciClaim => exact fun off => absurd (.inr passed) off
  | fire | irqDone | cleanup | callback | wheel => trivial

/-- Driver 1 finds its line by discovery, driver 2 shares it, and after the next
fire driver 1 reports that the interrupt was not its own. -/
def shared : List Label :=
  [.registerPci 1 1 0x1800 5 0, .resolve 1 none, .fire 16 0 [], .pciClaim 1 16,
    .irqRegister 2 16 6, .fire 16 1 [], .irqDone 1 16 0]

theorem irq_line_protocol_shared : ∃ s, Steps
    (Guarded (step board) (Guard board)) (initial dark) shared s ∧ (s.lines 16).masked = true ∧
    (s.lines 16).pendingDone = 1 ∧ s.woken = [(5, 16), (6, 16), (5, 16)] ∧ Protocol board s := by
  have followed : (followRun (checked (exec board) (guardCheck board))
      (initial dark) shared).map (fun s => ((s.lines 16).masked, (s.lines 16).pendingDone, s.woken)) =
      some (true, 1, [(5, 16), (6, 16), (5, 16)]) := by
    decide +kernel
  obtain ⟨s, run, seen⟩ := Steps.guarded_of_followed guardCheck_sound followed
  simp only [Prod.mk.injEq] at seen
  exact ⟨s, run, seen.1, seen.2.1, seen.2.2, irq_line_protocol run⟩

end MainDob.Kernel.IrqLines
