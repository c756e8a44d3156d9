/-
Purpose: What arming with growth, initialising and the sections of the timer
  heap do to the safety timers of the interrupt lines, and the lines of the
  interrupt controller.
Main exports: Touches, armWithGrowth_spec, timerInit_spec
-/
import MainDob.Kernel.IrqLines
import MainDob.Proofs.TimerSections

namespace MainDob.Kernel.IrqLines

open Function

/-! ### The timers -/

/-- The heap stays in order, and only the timer `t` changes. -/
structure Touches (t : Nat) (wheel wheel' : Timers.State) : Prop where
  heap : Timers.HeapOk wheel'
  drains : wheel'.drains = wheel.drains
  others : ∀ u, u ≠ t → Timers.Alike wheel wheel' u

section Heap

variable {wheel wheel' wheel'' : Timers.State} {t : Nat}

theorem Touches.refl (ok : Timers.HeapOk wheel) : Touches t wheel wheel :=
  ⟨ok, rfl, fun _ _ => ⟨rfl, rfl, rfl⟩⟩

theorem Touches.trans (one : Touches t wheel wheel')
    (two : Touches t wheel' wheel'') : Touches t wheel wheel'' where
  heap := two.heap
  drains := two.drains.trans one.drains
  others := fun u other =>
    ⟨(two.others u other).armed.trans (one.others u other).armed, (two.others u other).period.trans
      (one.others u other).period, (two.others u other).gen.trans (one.others u other).gen⟩

section

variable (ok : Timers.HeapOk wheel)
include ok

theorem Touches.arm (t deadline : Nat) : Touches t wheel (Timers.armSection wheel t deadline 0) ∧
      (Timers.armSection wheel t deadline 0).armed t = (Timers.armLocked wheel t deadline 0).2 := by
  obtain ⟨heap, armed, _, drains, others⟩ := ok.arm t deadline 0
  exact ⟨⟨heap, drains, others⟩, armed⟩

theorem Touches.cancel (t : Nat) : Touches t wheel (Timers.timerCancel wheel t) ∧
      (Timers.timerCancel wheel t).armed t = false := by
  obtain ⟨heap, armed, drains, others⟩ := ok.cancel t
  exact ⟨⟨heap, drains, others⟩, armed⟩

theorem Touches.grow (t : Nat) (junk : Nat → Nat) :
    Touches t wheel (Timers.growAdopt (Timers.growRead wheel) wheel.cap junk) := by
  have room := ok.room
  have least := ok.least
  have copied : Timers.HeapOk { wheel with
      heap := Timers.copyStorage wheel.heap junk
      cap := wheel.cap * 2 } :=
    Timers.copyStorage_spec ok junk (wheel.cap * 2) (by omega) (by omega)
  have adopted : ∀ growing, Touches t wheel { wheel with
      heap := Timers.copyStorage wheel.heap junk
      cap := wheel.cap * 2
      growing := growing } := fun _ =>
    ⟨{ copied with }, rfl, fun _ _ => ⟨rfl, rfl, rfl⟩⟩
  unfold Timers.growAdopt Timers.growRead
  split
  · dsimp only
    rw [if_pos rfl]
    exact adopted _
  · dsimp only
    rw [if_pos rfl]
    exact adopted _

theorem armWithGrowth_spec (t deadline : Nat) (growths : List (Nat → Nat)) :
    Touches t wheel (armWithGrowth wheel t deadline growths).1 ∧
      (armWithGrowth wheel t deadline growths).1.armed t =
        (armWithGrowth wheel t deadline growths).2 := by
  induction growths generalizing wheel with
  | nil => exact Touches.arm ok t deadline
  | cons junk _ ih =>
    obtain ⟨armed, isArmed⟩ := Touches.arm ok t deadline
    unfold armWithGrowth
    dsimp only
    split
    · next done => exact ⟨armed, isArmed.trans done⟩
    next full =>
      split
      · exact ⟨armed, isArmed.trans (Bool.eq_false_iff.mpr full)⟩
      have grown := Touches.grow armed.heap t junk
      obtain ⟨rest, isArmed'⟩ := ih grown.heap
      exact ⟨(armed.trans grown).trans rest, isArmed'⟩

theorem timerInit_spec (t : Nat) (unarmed : wheel.armed t = false) :
    Touches t wheel (timerInit wheel t) ∧ (timerInit wheel t).armed t = false := by
  have absent : wheel.heap.pos t = none := by
    have off := ok.members t
    rw [unarmed] at off
    simpa using off
  have outside := Timers.ordered_update ok.indexed ok.ordered absent ⟨0, 0, 0, false⟩
  have same : timerInit wheel t = wheel.setTimer t ⟨0, 0, 0, false⟩ := by
    unfold timerInit Timers.clearIndex Timers.State.setTimer
    simp only [← absent, update_eq_self]
  rw [same]
  refine ⟨⟨⟨ok.indexed, outside, ok.members, ok.room, ok.least⟩, rfl, fun u other => ?_⟩, unarmed⟩
  exact ⟨rfl, congrArg Timers.Timer.period (update_of_ne other _ _),
    congrArg Timers.Timer.gen (update_of_ne other _ _)⟩

end

/-! ### Expiry -/

/-- The safety timer of a line is armed, or a drain has taken it and is going to
call its callback. -/
def Awaited (wheel : Timers.State) (irq : Nat) : Prop :=
  wheel.armed irq = true ∨ ∃ cpu now, wheel.drains cpu = some ⟨now, .calling irq⟩ ∨
      wheel.drains cpu = some ⟨now, .popped irq (wheel.timers irq).gen⟩

theorem Touches.awaited {irq : Nat} (touches : Touches t wheel wheel')
    (other : irq ≠ t) (awaited : Awaited wheel irq) : Awaited wheel' irq := by
  obtain ⟨armed, _, gen⟩ := touches.others irq other
  rcases awaited with isArmed | ⟨cpu, now, taken⟩
  · exact .inl (armed.trans isArmed)
  refine .inr ⟨cpu, now, ?_⟩
  rw [touches.drains, gen]
  exact taken

theorem inFlight_of_taken {cpu now irq fireGen : Nat}
    (taken : wheel.drains cpu = some ⟨now, .calling irq⟩ ∨ wheel.drains cpu = some
      ⟨now, .popped irq fireGen⟩) : Timers.inFlight wheel.drains cpu irq = true := by
  rcases taken with found | found <;>
    simp [Timers.inFlight, found, Timers.Phase.holds]

theorem Awaited.redrain {irq cpu : Nat} {drain : Option Timers.Drain}
    (awaited : Awaited wheel irq) (alike : Timers.Alike wheel wheel' irq)
    (drains : wheel'.drains = Function.update wheel.drains cpu drain)
    (held : ∀ now, wheel.drains cpu = some ⟨now, .calling irq⟩ ∨
      wheel.drains cpu = some ⟨now, .popped irq (wheel.timers irq).gen⟩ →
      drain = some ⟨now, .calling irq⟩) : Awaited wheel' irq := by
  rcases awaited with isArmed | ⟨other, now, taken⟩
  · exact .inl (alike.armed.trans isArmed)
  refine .inr ⟨other, now, ?_⟩
  by_cases same : other = cpu
  · rw [same] at taken ⊢
    rw [drains, update_self]
    exact .inl (held now taken)
  · rw [drains, update_of_ne same, alike.gen]
    exact taken

/-- A foreign section leaves the safety timers alone, and takes one only to call
its callback. -/
theorem foreign_section (ok : Timers.HeapOk wheel) {label : Timers.Label}
    (isForeign : foreign wheel label = true) (taken : Timers.exec wheel label = some wheel') :
    Timers.HeapOk wheel' ∧ ∀ irq, irq < maxIrqForward → (Awaited wheel irq → Awaited wheel' irq) ∧
        (wheel.armed irq = false → wheel'.armed irq = false) := by
  have far : ∀ {t}, Touches t wheel wheel' → maxIrqForward ≤ t →
      Timers.HeapOk wheel' ∧ ∀ irq, irq < maxIrqForward → (Awaited wheel irq → Awaited wheel' irq) ∧
          (wheel.armed irq = false → wheel'.armed irq = false) := by
    intro t touches away
    refine ⟨touches.heap, fun irq bound => ?_⟩
    have other : irq ≠ t := by omega
    exact ⟨touches.awaited other, (touches.others irq other).armed.trans⟩
  have plain : (∀ t d, label ≠ .armAt t d) →
      (∀ t now p, label ≠ .armPeriodic t now p) → (∀ t, label ≠ .cancel t) →
      Timers.HeapOk wheel' ∧ ∀ irq, irq < maxIrqForward → (Awaited wheel irq → Awaited wheel' irq) ∧
          (wheel.armed irq = false → wheel'.armed irq = false) := by
    intro arms armsPeriodic cancels
    obtain ⟨heap, effect⟩ := ok.section_ arms armsPeriodic cancels taken
    refine ⟨heap, fun irq bound => ?_⟩
    cases effect with
    | quiet alike drains =>
      have touches : Touches maxIrqForward wheel wheel' := ⟨heap, drains, fun u _ => alike u⟩
      have other : irq ≠ maxIrqForward := by omega
      exact ⟨touches.awaited other, (alike irq).armed.trans⟩
    | idle _ _ alike drains before =>
      refine ⟨fun awaited => awaited.redrain (alike irq) drains ?_, (alike irq).armed.trans⟩
      intro now held
      have off := before irq
      rw [inFlight_of_taken held] at off
      cases off
    | check _ _ _ _ alike before drains =>
      refine ⟨fun awaited => awaited.redrain (alike irq) drains ?_, (alike irq).armed.trans⟩
      rintro clock (found | found)
      · cases before.symm.trans found
      · cases before.symm.trans found
        rw [if_pos rfl]
    | call _ _ t isCall alike before drains =>
      have away : maxIrqForward ≤ t := by
        rw [isCall, foreign, before] at isForeign
        exact of_decide_eq_true isForeign
      refine ⟨fun awaited => awaited.redrain (alike irq) drains ?_, (alike irq).armed.trans⟩
      rintro clock (found | found)
      · cases before.symm.trans found
        omega
      · cases before.symm.trans found
    | pop cpu now t before wasArmed _ _ _ gen drains alike =>
      by_cases here : irq = t
      · subst here
        refine ⟨fun _ => .inr ⟨cpu, now, .inr ?_⟩, fun unarmed => ?_⟩
        · rw [drains, update_self, gen]
        · cases unarmed.symm.trans wasArmed
      · refine ⟨fun awaited => awaited.redrain (alike irq here) drains ?_,
          (alike irq here).armed.trans⟩
        intro clock held
        have off := before irq
        rw [inFlight_of_taken held] at off
        cases off
  cases label with
  | armAt t deadline =>
    obtain rfl := Option.some.inj taken
    obtain ⟨heap, _, _, drains, others⟩ := ok.arm t deadline 0
    exact far ⟨heap, drains, others⟩ (of_decide_eq_true isForeign)
  | armPeriodic t now period =>
    obtain rfl := Option.some.inj taken
    obtain ⟨heap, _, _, drains, others⟩ := ok.arm t ((now + period) % Timers.clockWord) period
    exact far ⟨heap, drains, others⟩ (of_decide_eq_true isForeign)
  | cancel t =>
    obtain rfl := Option.some.inj taken
    exact far (Touches.cancel ok t).1 (of_decide_eq_true isForeign)
  | _ => exact plain nofun nofun nofun

end Heap

/-! ### The controller -/

/-- The input of the interrupt controller that masks a line. -/
def input (p : Platform) (line : Nat) : Nat :=
  if p.ioapic then p.resolve line else picBit line

/-- The input is there. -/
def wired (p : Platform) (line : Nat) : Bool :=
  !p.ioapic || p.covers (p.resolve line)

section Controller

variable {p : Platform} {c : Controller} {line other : Nat} {value : Bool}

theorem isOpen_set (there : wired p line = true) :
    isOpen p (intrLineSet p c line value) line = value := by
  unfold wired at there
  cases mode : p.ioapic with
  | true =>
    have covered : p.covers (p.resolve line) = true := by simpa [mode] using there
    simp [isOpen, intrLineSet, setGsi, mode, covered]
  | false => simp [isOpen, intrLineSet, setPic, mode]

theorem isOpen_set_of_ne (apart : input p other ≠ input p line) :
    isOpen p (intrLineSet p c line value) other = isOpen p c other := by
  unfold input at apart
  cases mode : p.ioapic with
  | true =>
    simp only [mode, if_true] at apart
    simp only [isOpen, intrLineSet, setGsi, mode, if_true]
    split
    · simp [apart]
    · rfl
  | false =>
    simp only [mode, Bool.false_eq_true, if_false] at apart
    simp [isOpen, intrLineSet, setPic, mode, apart]

theorem setGsi_eq (ioapic : p.ioapic = true) (pci : 16 ≤ line) :
    setGsi p c line value = intrLineSet p c line value := by
  simp [intrLineSet, ioapic, p.isa line pci]

theorem isOpen_route_of_ne (apart : input p other ≠ input p line) :
    isOpen p (intrRouteLine p (irqRegisterHandler c line) line) other = isOpen p c other := by
  cases mode : p.ioapic with
  | true =>
    have same : (if line < 16 then p.resolve line else line) = p.resolve line := by
      split
      · rfl
      · next pci => exact (p.isa line (Nat.le_of_not_lt pci)).symm
    have routed : intrRouteLine p (irqRegisterHandler c line) line =
        intrLineSet p (irqRegisterHandler c line) line false := by
      simp only [intrRouteLine, intrLineSet, mode, if_true, same]
    rw [routed, isOpen_set_of_ne apart]
    simp only [isOpen, mode, if_true, irqRegisterHandler]
    split <;> rfl
  | false =>
    simp only [intrRouteLine, mode, Bool.false_eq_true, if_false, irqRegisterHandler]
    split
    · have set : setPic c line true = intrLineSet p c line true := by simp [intrLineSet, mode]
      rw [set, isOpen_set_of_ne apart]
    · rfl

end Controller

end MainDob.Kernel.IrqLines
