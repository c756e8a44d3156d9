/-
Purpose: What one line of kernel/syscall/driver.c keeps under its own steps, and
  what the steps on one line leave of the others.
Trusted boundary: none beyond Kernel.IrqLines
Main exports: InUse, LineOk, Good
-/
import Mathlib.Data.List.Basic
import MainDob.Proofs.SafetyTimers

namespace MainDob.Kernel.IrqLines

open Function (update_of_ne update_self)
open List

/-! ### One line -/

/-- A sharer that owes a report. -/
def Sharer.owes (sharer : Sharer) : Bool :=
  sharer.used && !sharer.doneThisFire

/-- The line has sharers, or is armed for discovery. -/
def InUse (line : Line) : Prop :=
  0 < line.sharerCount ∨ line.probeArmed = true

/-- What is kept of a line, with whether it is unmasked in the controller,
whether its safety timer is armed, and whether it is awaited. -/
structure LineOk (p : Platform) (irq : Nat) (line : Line) (opened armed : Bool)
    (awaited : Prop) : Prop where
  count : line.sharerCount = line.sharers.countP Sharer.used
  debts : line.masked = true → line.pendingDone = line.sharers.countP Sharer.owes
  idle : line.sharerCount = 0 → line.pendingDone = 0
  probing : line.probeArmed = true → line.sharerCount = 0 ∧
    p.ioapic = true ∧ 16 ≤ irq ∧ p.covers irq = true
  wired : 0 < line.sharerCount → wired p irq = true
  live : InUse line → opened = true ∨ line.masked = true ∧ awaited
  rest : ¬ InUse line → armed = false ∧ line.masked = false

/-- A line of a state is as it should be. -/
def Good (p : Platform) (s : State) (irq : Nat) : Prop :=
  LineOk p irq (s.lines irq) (isOpen p s.ctl irq) (s.wheel.armed irq) (Awaited s.wheel irq)

/-- What a step on the line `irq` may change. -/
structure Only (p : Platform) (irq : Nat) (s s' : State) : Prop where
  lines : ∀ other, other ≠ irq → s'.lines other = s.lines other
  opens : ∀ other, input p other ≠ input p irq →
    isOpen p s'.ctl other = isOpen p s.ctl other
  wheel : Touches irq s.wheel s'.wheel
  bindings : s'.pciBindings = s.pciBindings
  pending : s'.pciPending = s.pciPending
  pendingCount : s'.pciPendingCount = s.pciPendingCount
  calls : s'.calls = s.calls
  inits : (∀ x ∈ s.inits, x.2 = false) → ∀ x ∈ s'.inits, x.2 = false

section Lines

variable {p : Platform} {s s' s'' : State} {irq : Nat}

theorem Only.refl (heap : Timers.HeapOk s.wheel) : Only p irq s s where
  lines := fun _ _ => rfl
  opens := fun _ _ => rfl
  wheel := .refl heap
  bindings := rfl
  pending := rfl
  pendingCount := rfl
  calls := rfl
  inits := id

theorem Only.trans (one : Only p irq s s') (two : Only p irq s' s'') : Only p irq s s'' where
  lines := fun other apart => (two.lines other apart).trans (one.lines other apart)
  opens := fun other apart => (two.opens other apart).trans (one.opens other apart)
  wheel := one.wheel.trans two.wheel
  bindings := two.bindings.trans one.bindings
  pending := two.pending.trans one.pending
  pendingCount := two.pendingCount.trans one.pendingCount
  calls := two.calls.trans one.calls
  inits := fun clean => two.inits (one.inits clean)

section

variable (only : Only p irq s s')
include only

theorem Only.setLine (line : Line) : Only p irq s (s'.setLine irq line) :=
  only.trans {
    lines := fun _ apart => update_of_ne apart _ _
    opens := fun _ _ => rfl
    wheel := .refl only.wheel.heap
    bindings := rfl
    pending := rfl
    pendingCount := rfl
    calls := rfl
    inits := id }

theorem Only.setOpen (value : Bool) : Only p irq s (s'.setOpen p irq value) :=
  only.trans {
    lines := fun _ _ => rfl
    opens := fun _ apart => isOpen_set_of_ne apart
    wheel := .refl only.wheel.heap
    bindings := rfl
    pending := rfl
    pendingCount := rfl
    calls := rfl
    inits := id }

theorem Only.setWheel {wheel : Timers.State}
    (touches : Touches irq s'.wheel wheel) : Only p irq s { s' with wheel := wheel } :=
  only.trans {
    lines := fun _ _ => rfl
    opens := fun _ _ => rfl
    wheel := touches
    bindings := rfl
    pending := rfl
    pendingCount := rfl
    calls := rfl
    inits := id }

theorem Only.cancelTimer : Only p irq s (s'.cancelTimer irq) :=
  only.setWheel (Touches.cancel only.wheel.heap irq).1

theorem Only.armTimer (now ms : Nat) (growths : List (Nat → Nat)) :
    Only p irq s (s'.armTimer irq now ms growths).1 :=
  only.setWheel (armWithGrowth_spec only.wheel.heap irq _ growths).1

theorem Only.notify (ports : List Nat) : Only p irq s (s'.notify ports irq) :=
  only.trans {
    lines := fun _ _ => rfl
    opens := fun _ _ => rfl
    wheel := .refl only.wheel.heap
    bindings := rfl
    pending := rfl
    pendingCount := rfl
    calls := rfl
    inits := id }

end

theorem armed_armTimer (heap : Timers.HeapOk s.wheel) (irq now ms : Nat)
    (growths : List (Nat → Nat)) :
    (s.armTimer irq now ms growths).1.wheel.armed irq = (s.armTimer irq now ms growths).2 :=
  (armWithGrowth_spec heap irq _ growths).2

theorem Only.park (only : Only p irq s s') (ioapic : p.ioapic = true)
    (pci : 16 ≤ irq) : Only p irq s (probePark p s' irq) := by
  unfold probePark
  rw [setGsi_eq ioapic pci]
  exact (only.setOpen false).setLine _

theorem LineOk.unused {line : Line} {opened armed : Bool} {awaited : Prop}
    (count : line.sharerCount = line.sharers.countP Sharer.used)
    (noSharer : line.sharerCount = 0) (noProbe : line.probeArmed = false)
    (unmasked : line.masked = false) (noDebt : line.pendingDone = 0)
    (unarmed : armed = false) : LineOk p irq line opened armed awaited where
  count := count
  debts := fun masked => absurd (unmasked.symm.trans masked) (by decide)
  idle := fun _ => noDebt
  probing := fun probing => absurd (noProbe.symm.trans probing) (by decide)
  wired := fun sharer => by omega
  live := by
    rintro (sharer | probing)
    · omega
    · exact absurd (noProbe.symm.trans probing) (by decide)
  rest := fun _ => ⟨unarmed, unmasked⟩

/-- A step on one line: what it leaves of the others, and that the line is as it
should be. -/
structure Stepped (p : Platform) (irq : Nat) (s s' : State) : Prop where
  only : Only p irq s s'
  good : Good p s' irq
  probe : (s'.lines irq).probeArmed = true → (s.lines irq).probeArmed = true

theorem good_park (count : (s.lines irq).sharerCount = (s.lines irq).sharers.countP Sharer.used)
    (noSharer : (s.lines irq).sharerCount = 0) (unarmed : s.wheel.armed irq = false)
    (awaited : Prop) : LineOk p irq ((probePark p s irq).lines irq)
    (isOpen p (probePark p s irq).ctl irq) ((probePark p s irq).wheel.armed irq) awaited := by
  simp only [probePark, State.setLine, update_self]
  exact .unused count noSharer rfl rfl rfl unarmed

/-! ### Counting sharers -/

section

variable {α : Type} {q : α → Bool}

theorem countP_modify {f : α → α} {l : List α} {i : Nat} {x : α} (here : l[i]? = some x) :
    (l.modify i f).countP q + (q x).toNat = l.countP q + (q (f x)).toNat := by
  induction l generalizing i with
  | nil => cases here
  | cons _ _ ih =>
    cases i with
    | zero =>
      cases here
      simp only [modify_zero_cons, countP_cons]
      cases q x <;> cases q (f x) <;> simp
    | succ i =>
      have rest := ih (i := i) here
      simp only [modify_succ_cons, countP_cons]
      omega

theorem countP_set {a : α} {l : List α} {i : Nat} {x : α}
    (here : l[i]? = some x) : (l.set i a).countP q + (q x).toNat = l.countP q + (q a).toNat := by
  rw [set_eq_modify]
  exact countP_modify here

theorem findIdx?_spec {l : List α} {i : Nat}
    (found : l.findIdx? q = some i) : ∃ x, l[i]? = some x ∧ q x = true := by
  obtain ⟨bound, holds, _⟩ := List.findIdx?_eq_some_iff_getElem.mp found
  exact ⟨l[i], List.getElem?_eq_getElem bound, holds⟩

end

theorem countP_used_owe (l : List Sharer) :
    (l.map Sharer.owe).countP Sharer.used = l.countP Sharer.used := by
  rw [countP_map]
  congr 1
  funext x
  simp only [Function.comp, Sharer.owe]
  split <;> rfl

theorem countP_owes_owe (l : List Sharer) :
    (l.map Sharer.owe).countP Sharer.owes = l.countP Sharer.used := by
  rw [countP_map]
  congr 1
  funext x
  simp only [Function.comp, Sharer.owe, Sharer.owes]
  split
  · next used => simp [used]
  · next unused => simp [unused]

theorem countP_owes_le (l : List Sharer) : l.countP Sharer.owes ≤ l.countP Sharer.used :=
  countP_mono_left fun x _ owes => by
    exact (Bool.and_eq_true_iff.mp owes).1

theorem sharerOf_spec {line : Line} {pid slot : Nat} (found : sharerOf line pid = some slot) :
    ∃ x, line.sharers[slot]? = some x ∧ x.used = true ∧ x.ownerPid = pid := by
  obtain ⟨x, here, holds⟩ := findIdx?_spec found
  simp only [Bool.and_eq_true, beq_iff_eq] at holds
  exact ⟨x, here, holds.1, holds.2⟩

theorem Good.counted (good : Good p s irq) {slot : Nat} {x : Sharer}
    (here : (s.lines irq).sharers[slot]? = some x) (used : x.used = true) :
    0 < (s.lines irq).sharerCount := by
  rw [good.count]
  exact countP_pos_iff.mpr ⟨x, mem_of_getElem? here, used⟩

/-! ### Fires -/

section

variable (heap : Timers.HeapOk s.wheel)
include heap

section

variable (good : Good p s irq)
include good

theorem lineFireBound_stepped (bound : 0 < (s.lines irq).sharerCount) (now : Nat)
    (growths : List (Nat → Nat)) : Stepped p irq s (lineFireBound p s irq now growths).1 := by
  have opened : Only p irq s (lineOpenFire p s irq).1 := ((Only.refl heap).setOpen false).setLine _
  have isLine : (lineOpenFire p s irq).1.lines irq = { s.lines irq with
        masked := true
        pendingDone := (s.lines irq).sharerCount
        sharers := (s.lines irq).sharers.map Sharer.owe } := by
    simp only [lineOpenFire, State.setLine, update_self]
  have bare : (s.lines irq).probeArmed = true → False := fun probing => by
    have none := (good.probing probing).1
    omega
  have armed := armed_armTimer opened.wheel.heap irq now irqDoneTimeoutMs growths
  have armOnly := opened.armTimer now irqDoneTimeoutMs growths
  have kept : ((lineOpenFire p s irq).1.armTimer irq now irqDoneTimeoutMs
      growths).1.lines irq = (lineOpenFire p s irq).1.lines irq := rfl
  unfold lineFireBound
  dsimp only
  split
  · next done =>
      refine ⟨armOnly, ?_, fun probing => ?_⟩
      · unfold Good
        rw [kept, isLine]
        exact {
          count := good.count.trans (countP_used_owe _).symm
          debts := fun _ => good.count.trans (countP_owes_owe _).symm
          idle := fun none => none
          probing := fun probing => (bare probing).elim
          wired := good.wired
          live := fun _ => .inr ⟨rfl, .inl (armed.trans done)⟩
          rest := fun off => absurd (.inl bound) off }
      · rw [kept, isLine] at probing
        exact probing
  · refine ⟨(armOnly.setLine _).setOpen true, ?_, fun probing => ?_⟩
    · unfold Good
      simp only [State.setOpen, State.setLine, update_self, kept,
        isLine, isOpen_set (good.wired bound)]
      exact {
        count := good.count.trans (countP_used_owe _).symm
        debts := nofun
        idle := fun _ => rfl
        probing := fun probing => (bare probing).elim
        wired := good.wired
        live := fun _ => .inl rfl
        rest := fun off => absurd (.inl bound) off }
    · simp only [State.setOpen, State.setLine, update_self, kept, isLine] at probing
      exact probing

theorem lineFireProbe_stepped (probing : (s.lines irq).probeArmed = true) (now : Nat)
    (growths : List (Nat → Nat)) : Stepped p irq s (lineFireProbe p s irq now growths).1 := by
  obtain ⟨noSharer, ioapic, pci, covered⟩ := good.probing probing
  have opened : Only p irq s ((s.setOpen p irq false).setLine irq
      { s.lines irq with masked := true }) :=
    ((Only.refl heap).setOpen false).setLine _
  have isLine : ((s.setOpen p irq false).setLine irq
      { s.lines irq with masked := true }).lines irq = { s.lines irq with masked := true } := by
    simp only [State.setLine, update_self]
  have armed := armed_armTimer opened.wheel.heap irq now probeClaimTimeoutMs growths
  have armOnly := opened.armTimer now probeClaimTimeoutMs growths
  have owesNone : (s.lines irq).sharers.countP Sharer.owes = 0 := by
    have most := countP_owes_le (s.lines irq).sharers
    rw [← good.count, noSharer] at most
    omega
  have kept : (((s.setOpen p irq false).setLine irq
      { s.lines irq with masked := true }).armTimer irq now probeClaimTimeoutMs
        growths).1.lines irq = { s.lines irq with masked := true } := isLine
  unfold lineFireProbe
  dsimp only [State.setOpen] at *
  split
  · next done =>
      refine ⟨armOnly, ?_, fun _ => probing⟩
      unfold Good
      rw [kept]
      exact {
        count := good.count
        debts := fun _ => (good.idle noSharer).trans owesNone.symm
        idle := good.idle
        probing := fun _ => ⟨noSharer, ioapic, pci, covered⟩
        wired := good.wired
        live := fun _ => .inr ⟨rfl, .inl (armed.trans done)⟩
        rest := fun off => absurd (.inr probing) off }
  · next full =>
      refine ⟨armOnly.park ioapic pci, good_park ?_ ?_
        (armed.trans (Bool.eq_false_iff.mpr full)) _, fun _ => probing⟩
      · rw [kept]
        exact good.count
      · rw [kept]
        exact noSharer

theorem irqForwardHandler_stepped (now : Nat)
    (growths : List (Nat → Nat)) : Stepped p irq s (irqForwardHandler p s irq now growths) := by
  have told : ∀ {s'} (ports : List Nat), Stepped p irq s s' →
      Stepped p irq s (s'.notify ports irq) := fun ports stepped =>
    ⟨stepped.only.notify ports, stepped.good, stepped.probe⟩
  unfold irqForwardHandler
  split
  · exact ⟨.refl heap, good, id⟩
  split
  · next bound => exact told _ (lineFireBound_stepped heap good bound now growths)
  split
  · next probing => exact told _ (lineFireProbe_stepped heap good probing.1 now growths)
  · exact ⟨.refl heap, good, id⟩

/-! ### The safety timer -/

/-- `irq_line_watchdog`: the line does not wait for the drain any more that has
called it. -/
theorem irqLineWatchdog_stepped
    (resolving : (s.lines irq).probeArmed = true → 0 < s.pciPendingCount)
    (now : Nat) (growths : List (Nat → Nat)) : Only p irq s (irqLineWatchdog p s irq now growths) ∧
      LineOk p irq ((irqLineWatchdog p s irq now growths).lines irq)
        (isOpen p (irqLineWatchdog p s irq now growths).ctl irq)
        ((irqLineWatchdog p s irq now growths).wheel.armed irq)
        ((irqLineWatchdog p s irq now growths).wheel.armed irq = true) ∧
      (((irqLineWatchdog p s irq now growths).lines irq).probeArmed = true →
        (s.lines irq).probeArmed = true) := by
  unfold irqLineWatchdog
  dsimp only
  split
  · next unmasked =>
      refine ⟨.refl heap, { good with live := fun inUse => .inl ?_ }, id⟩
      rcases good.live inUse with opened | ⟨masked, _⟩
      · exact opened
      · cases unmasked.symm.trans masked
  next isMasked =>
    have masked : (s.lines irq).masked = true := by simpa using isMasked
    split
    · next probe =>
        obtain ⟨noSharer, probing⟩ := probe
        obtain ⟨_, ioapic, pci, covered⟩ := good.probing probing
        have there : wired p irq = true := by simp [IrqLines.wired, p.isa irq pci, covered]
        split
        · rw [setGsi_eq ioapic pci]
          refine ⟨((Only.refl heap).setOpen true).setLine _, ?_, fun _ => probing⟩
          simp only [State.setLine, update_self, isOpen_set there]
          exact {
            count := good.count
            debts := nofun
            idle := good.idle
            probing := good.probing
            wired := good.wired
            live := fun _ => .inl rfl
            rest := fun off => absurd (.inr probing) off }
        split
        · have armed := armed_armTimer heap irq now probeBackoffMs growths
          have same : Only p irq s s := .refl heap
          have armOnly := same.armTimer now probeBackoffMs growths
          split
          · next done =>
              refine ⟨armOnly.setLine _, ?_, fun _ => probing⟩
              simp only [State.setLine, update_self]
              exact {
                count := good.count
                debts := good.debts
                idle := good.idle
                probing := good.probing
                wired := good.wired
                live := fun _ => .inr ⟨masked, armed.trans done⟩
                rest := fun off => absurd (.inr probing) off }
          · next full =>
              exact ⟨armOnly.park ioapic pci,
                good_park (s := (s.armTimer irq now probeBackoffMs growths).1) good.count noSharer
                  (armed.trans (Bool.eq_false_iff.mpr full)) _, fun _ => probing⟩
        · next ended => exact absurd (resolving probing) ended
    · next bound =>
        have inUse : InUse (s.lines irq) → 0 < (s.lines irq).sharerCount := by
          rintro (sharer | probing)
          · exact sharer
          · exact absurd ⟨(good.probing probing).1, probing⟩ bound
        refine ⟨((Only.refl heap).setLine _).setOpen true, ?_, fun probing => ?_⟩
        · simp only [State.setOpen, State.setLine, update_self]
          exact {
            count := good.count
            debts := nofun
            idle := fun _ => rfl
            probing := good.probing
            wired := good.wired
            live := fun used => .inl (isOpen_set (good.wired (inUse used)))
            rest := fun off => ⟨(good.rest off).1, rfl⟩ }
        · simp only [State.setOpen, State.setLine, update_self] at probing
          exact probing

/-! ### Reports -/

theorem irqLineAck_stepped (pid : Nat)
    (handled : Bool) : Stepped p irq s (irqLineAck p s irq pid handled).1 := by
  have same : Stepped p irq s s := ⟨.refl heap, good, id⟩
  unfold irqLineAck
  dsimp only
  split
  · exact same
  next me found =>
    obtain ⟨x, here, used, _⟩ := sharerOf_spec found
    have bound := good.counted here used
    split
    · next open_ =>
        obtain ⟨masked, owed, undone⟩ := open_
        rw [here, Option.any_some] at undone
        have debts := good.debts masked
        have sameUsed := countP_modify (q := Sharer.used)
          (f := fun x => { x with doneThisFire := true }) here
        have oneLess := countP_modify (q := Sharer.owes)
          (f := fun x => { x with doneThisFire := true }) here
        have owes : x.owes = true := by simp [Sharer.owes, used, undone]
        have square : Sharer.owes { x with doneThisFire := true } = false := by simp [Sharer.owes]
        rw [owes, square] at oneLess
        simp only [Bool.toNat_true, Bool.toNat_false] at oneLess
        have marked : Only p irq s (s.setLine irq { s.lines irq with
            sharers := (s.lines irq).sharers.modify me fun x => { x with doneThisFire := true }
            pendingDone := (s.lines irq).pendingDone - 1 }) :=
          (Only.refl heap).setLine _
        split
        · refine ⟨((marked.cancelTimer).setLine _).setOpen true, ?_, fun probing => ?_⟩
          · unfold Good
            simp only [lineCloseFire, State.setOpen, State.cancelTimer, State.setLine, update_self,
              isOpen_set (good.wired bound)]
            exact {
              count := by
                have count := good.count
                simp only at sameUsed ⊢
                omega
              debts := nofun
              idle := fun none => absurd bound (by simp only at none; omega)
              probing := good.probing
              wired := good.wired
              live := fun _ => .inl rfl
              rest := fun off => absurd (.inl bound) off }
          · simp only [lineCloseFire, State.setOpen, State.cancelTimer,
              State.setLine, update_self] at probing
            exact probing
        · refine ⟨marked, ?_, fun probing => ?_⟩
          · unfold Good
            simp only [State.setLine, update_self]
            exact {
              count := by
                have count := good.count
                simp only at sameUsed ⊢
                omega
              debts := fun _ => by
                simp only at oneLess ⊢
                omega
              idle := fun none => absurd bound (by simp only at none; omega)
              probing := good.probing
              wired := good.wired
              live := good.live
              rest := good.rest }
          · simp only [State.setLine, update_self] at probing
            exact probing
    · exact same

/-! ### Registrations -/

theorem irqAttachSharer_stepped
    (noProbe : (s.lines irq).probeArmed = false) (there : wired p irq = true) (pid port : Nat) :
    Stepped p irq s (irqAttachSharer p s irq pid port).1 := by
  unfold irqAttachSharer
  dsimp only
  split
  · next slot found =>
      obtain ⟨x, here, used, _⟩ := sharerOf_spec found
      have sameUsed := countP_modify (q := Sharer.used)
        (f := fun x => { x with notifyPort := port }) here
      have sameOwes := countP_modify (q := Sharer.owes)
        (f := fun x => { x with notifyPort := port }) here
      refine ⟨((Only.refl heap).setLine _).setOpen true, ?_, fun probing => ?_⟩
      · unfold Good
        simp only [State.setOpen, State.setLine, update_self, isOpen_set there]
        exact {
          count := by
            have count := good.count
            simp only at sameUsed ⊢
            omega
          debts := fun masked => by
            have debts := good.debts masked
            have same : Sharer.owes { x with notifyPort := port } = x.owes := rfl
            rw [same] at sameOwes
            simp only at sameOwes ⊢
            omega
          idle := good.idle
          probing := good.probing
          wired := good.wired
          live := fun _ => .inl rfl
          rest := good.rest }
      · simp only [State.setOpen, State.setLine, update_self] at probing
        exact probing
  · split
    · exact ⟨.refl heap, good, id⟩
    next slot found =>
      obtain ⟨x, here, unused⟩ := findIdx?_spec found
      have unused : x.used = false := by simpa using unused
      have oneMore := countP_set (q := Sharer.used) (a := ⟨port, pid, true, true⟩) here
      have sameOwes := countP_set (q := Sharer.owes) (a := ⟨port, pid, true, true⟩) here
      have noDebt : x.owes = false := by simp [Sharer.owes, unused]
      rw [unused] at oneMore
      rw [noDebt] at sameOwes
      have square : Sharer.owes ⟨port, pid, true, true⟩ = false := rfl
      have lineOk : ∀ armed awaited, LineOk p irq { s.lines irq with
          sharers := (s.lines irq).sharers.set slot ⟨port, pid, true, true⟩
          sharerCount := (s.lines irq).sharerCount + 1 } true armed awaited :=
        fun armed awaited => {
          count := (congrArg (· + 1) good.count).trans oneMore.symm
          debts := fun masked => (good.debts masked).trans sameOwes.symm
          idle := nofun
          probing := fun probing => absurd (noProbe.symm.trans probing) (by decide)
          wired := fun _ => there
          live := fun _ => .inl rfl
          rest := fun off => absurd (.inl (Nat.succ_pos _)) off }
      have attached : Only p irq s (s.setLine irq { s.lines irq with
          sharers := (s.lines irq).sharers.set slot ⟨port, pid, true, true⟩
          sharerCount := (s.lines irq).sharerCount + 1 }) :=
        (Only.refl heap).setLine _
      split
      · next first =>
          have unarmed : s.wheel.armed irq = false := by
            refine (good.rest ?_).1
            rintro (sharer | probing)
            · omega
            · cases noProbe.symm.trans probing
          refine ⟨Only.setOpen (attached.trans ?_) true, ?_, fun probing => ?_⟩
          · exact {
              lines := fun _ _ => rfl
              opens := fun _ apart => isOpen_route_of_ne apart
              wheel := (timerInit_spec heap irq unarmed).1
              bindings := rfl
              pending := rfl
              pendingCount := rfl
              calls := rfl
              inits := fun clean x member => by
                rcases mem_cons.mp member with rfl | old
                · exact unarmed
                · exact clean x old }
          · unfold Good
            simp only [State.setOpen, State.setLine, update_self, isOpen_set there]
            exact lineOk _ _
          · simp only [State.setOpen, State.setLine, update_self] at probing
            exact probing
      · refine ⟨attached.setOpen true, ?_, fun probing => ?_⟩
        · unfold Good
          simp only [State.setOpen, State.setLine, update_self, isOpen_set there]
          exact lineOk _ _
        · simp only [State.setOpen, State.setLine, update_self] at probing
          exact probing

end

/-! ### Discovery -/

theorem armLine_good (ioapic : p.ioapic = true) (good : Good p s irq)
    (pci : 16 ≤ irq) : Only p irq s (armLine p s irq) ∧ Good p (armLine p s irq) irq := by
  unfold armLine
  split
  · exact ⟨.refl heap, good⟩
  split
  · exact ⟨.refl heap, good⟩
  next covered idle =>
    have there : wired p irq = true := by simp [IrqLines.wired, p.isa irq pci, covered]
    have unused : ¬ InUse (s.lines irq) := idle
    have noSharer : (s.lines irq).sharerCount = 0 := by
      by_contra sharer
      exact unused (.inl (Nat.pos_of_ne_zero sharer))
    rw [setGsi_eq ioapic pci]
    refine ⟨((Only.refl heap).setOpen true).setLine _, ?_⟩
    unfold Good
    simp only [State.setLine, update_self, isOpen_set there]
    exact {
      count := good.count
      debts := nofun
      idle := good.idle
      probing := fun _ => ⟨noSharer, ioapic, pci, by simpa using covered⟩
      wired := good.wired
      live := fun _ => .inl rfl
      rest := fun off => absurd (.inr rfl) off }

theorem disarmLine_stepped (good : Good p s irq) :
    Stepped p irq s (disarmLine p s irq) ∧ ((disarmLine p s irq).lines irq).probeArmed = false := by
  unfold disarmLine
  split
  · next off =>
      refine ⟨⟨.refl heap, good, id⟩, ?_⟩
      rcases off with noProbe | sharer
      · exact noProbe
      refine Bool.eq_false_iff.mpr fun probing => ?_
      have noSharer := (good.probing probing).1
      omega
  next on =>
    have probing : (s.lines irq).probeArmed = true := by
      by_contra off
      exact on (.inl (Bool.eq_false_iff.mpr off))
    obtain ⟨noSharer, ioapic, pci, _⟩ := good.probing probing
    rw [setGsi_eq ioapic pci]
    have gone : (({ s.cancelTimer irq with ctl := intrLineSet p s.ctl irq false }.setLine irq
          { s.lines irq with
            probeArmed := false
            probeBackoff := false
            masked := false
            pendingDone := 0 }).lines irq).probeArmed = false := by
      simp only [State.setLine, update_self]
    refine ⟨⟨((Only.refl heap).cancelTimer.setOpen false).setLine _, ?_, fun _ => probing⟩, gone⟩
    unfold Good
    simp only [State.setLine, State.cancelTimer, update_self]
    exact .unused good.count noSharer rfl rfl rfl (Touches.cancel heap irq).2

end

/-! ### The clean-up -/

/-- What a round over the sharers keeps of a line. -/
structure Cleaned (line line' : Line) : Prop where
  count : line.sharerCount = line.sharers.countP Sharer.used →
    line'.sharerCount = line'.sharers.countP Sharer.used
  debts : (line.masked = true → line.pendingDone = line.sharers.countP Sharer.owes) →
    line'.masked = true → line'.pendingDone = line'.sharers.countP Sharer.owes
  masked : line'.masked = line.masked
  probeArmed : line'.probeArmed = line.probeArmed

theorem Cleaned.refl (line : Line) : Cleaned line line := ⟨id, id, rfl, rfl⟩

theorem Cleaned.trans {line line' line'' : Line} (one : Cleaned line line')
    (two : Cleaned line' line'') : Cleaned line line'' :=
  ⟨fun count => two.count (one.count count), fun debts =>
    two.debts (one.debts debts), two.masked.trans one.masked, two.probeArmed.trans one.probeArmed⟩

theorem detachDead_cleaned (pid : Nat) (line : Line) (slot : Nat) :
    Cleaned line (detachDead pid line slot) := by
  unfold detachDead
  split
  · exact .refl line
  next x here =>
    split
    · next dead =>
        have oneLess := countP_set (q := Sharer.used) (a := ⟨0, 0, false, false⟩) here
        have lessOwed := countP_set (q := Sharer.owes) (a := ⟨0, 0, false, false⟩) here
        have gone : Sharer.owes ⟨0, 0, false, false⟩ = false := rfl
        rw [dead.1] at oneLess
        rw [gone] at lessOwed
        simp only [Bool.toNat_true, Bool.toNat_false, Nat.add_zero] at oneLess lessOwed
        split
        · next owed =>
            have owes : x.owes = true := by simp [Sharer.owes, dead.1, owed.2.2]
            rw [owes, Bool.toNat_true] at lessOwed
            refine ⟨fun count => ?_, fun debts masked => ?_, rfl, rfl⟩
            · simp only [sharerDetachSlot]
              omega
            · have before := debts masked
              simp only [sharerDetachSlot]
              omega
        · next square =>
            refine ⟨fun count => ?_, fun debts masked => ?_, rfl, rfl⟩
            · simp only [sharerDetachSlot]
              omega
            have before := debts masked
            have noDebt : x.owes = false := by
              refine Bool.eq_false_iff.mpr fun owes => ?_
              have undone : x.doneThisFire = false := by simpa [Sharer.owes, dead.1] using owes
              have some' : 0 < line.pendingDone := by
                rw [before]
                exact countP_pos_iff.mpr ⟨x, mem_of_getElem? here, owes⟩
              exact square ⟨masked, some', undone⟩
            rw [noDebt] at lessOwed
            simp only [sharerDetachSlot, Bool.toNat_false, Nat.add_zero] at lessOwed ⊢
            omega
    · exact .refl line

theorem detachDeads_cleaned (pid : Nat) (slots : List Nat) (line : Line) :
    Cleaned line (slots.foldl (detachDead pid) line) := by
  induction slots generalizing line with
  | nil => exact .refl line
  | cons slot _ ih => exact (detachDead_cleaned pid line slot).trans (ih _)

theorem cleanLine_stepped (heap : Timers.HeapOk s.wheel) (good : Good p s irq)
    (pid : Nat) : Stepped p irq s (cleanLine p pid s irq) := by
  unfold cleanLine
  split
  · exact ⟨.refl heap, good, id⟩
  next slot found =>
    obtain ⟨x, here, used, _⟩ := sharerOf_spec found
    have bound := good.counted here used
    have noProbe : (s.lines irq).probeArmed = false := by
      refine Bool.eq_false_iff.mpr fun probing => ?_
      have noSharer := (good.probing probing).1
      omega
    have cleaned := detachDeads_cleaned pid (List.range maxSharersPerLine) (s.lines irq)
    generalize (List.range maxSharersPerLine).foldl (detachDead pid) (s.lines irq) = line at cleaned
    have count := cleaned.count good.count
    have debts := cleaned.debts good.debts
    have bare : line.probeArmed = false := cleaned.probeArmed.trans noProbe
    dsimp only
    split
    · next none =>
        refine ⟨((Only.refl heap).cancelTimer.setOpen false).setLine _, ?_, fun probing => ?_⟩
        · unfold Good
          simp only [State.setLine, State.setOpen, State.cancelTimer, update_self]
          exact .unused count none bare rfl rfl (Touches.cancel heap irq).2
        · simp only [State.setLine, update_self] at probing
          exact cleaned.probeArmed ▸ probing
    next some' =>
      have left : 0 < line.sharerCount := Nat.pos_of_ne_zero some'
      split
      · refine ⟨((Only.refl heap).cancelTimer.setLine _).setOpen true, ?_, fun probing => ?_⟩
        · unfold Good
          simp only [State.setLine, State.setOpen, State.cancelTimer,
            update_self, isOpen_set (good.wired bound)]
          exact {
            count := count
            debts := nofun
            idle := fun none => absurd none some'
            probing := fun probing => absurd (bare.symm.trans probing) (by decide)
            wired := fun _ => good.wired bound
            live := fun _ => .inl rfl
            rest := fun off => absurd (.inl left) off }
        · simp only [State.setLine, State.setOpen, State.cancelTimer, update_self] at probing
          exact cleaned.probeArmed ▸ probing
      · refine ⟨(Only.refl heap).setLine _, ?_, fun probing => ?_⟩
        · unfold Good
          simp only [State.setLine, update_self]
          exact {
            count := count
            debts := debts
            idle := fun none => absurd none some'
            probing := fun probing => absurd (bare.symm.trans probing) (by decide)
            wired := fun _ => good.wired bound
            live := fun _ => by
              rw [cleaned.masked]
              exact good.live (.inl bound)
            rest := fun off => absurd (.inl left) off }
        · simp only [State.setLine, update_self] at probing
          exact cleaned.probeArmed ▸ probing

end Lines

end MainDob.Kernel.IrqLines
