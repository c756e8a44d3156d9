/-
Purpose: The interrupt lines of kernel/syscall/driver.c: the sharers of a line, its fires and
  their reports, its safety timer, the registrations of drivers, the discovery of PCI lines, and
  the clean-up of a dead driver, over the interrupt controller and the timer heap.
Trusted boundary: a section under s_irqfwd_lock is one step, whose timer
  sections go with it; clock readings, growth of the timer heap and what the
  chipset and the configuration space answer are choices of the environment; an
  interrupt may reach the handler of its line at any time; the interrupt
  controllers mask and unmask as they are told
Main exports: Platform, Controller, isOpen
-/
import MainDob.Kernel.AsyncTimers

namespace MainDob.Kernel.IrqLines

open Function (update)
open Lib

def maxIrqForward : Nat := 32

def maxSharersPerLine : Nat := 8

def irqDoneTimeoutMs : Nat := 50

def irqDoneMine : Nat := 0x4D494E45

def probeClaimTimeoutMs : Nat := 250

def probeBackoffMs : Nat := 200

def maxPciPending : Nat := 16

def maxPciBindings : Nat := 32

/-! ### The interrupt controller -/

/-- What the firmware and the hardware say: whether interrupts are delivered by
the IOAPIC (`intr_ioapic_delivery_active`), the input of a line
(`acpi_resolve_gsi`; only ISA lines have overrides) and the inputs there are
(`ioapic_covers_gsi`). -/
structure Platform where
  ioapic : Bool
  resolve : Nat → Nat
  covers : Nat → Bool
  isa : ∀ line, 16 ≤ line → resolve line = line

/-- The bits of the two 8259s and of the IOAPIC that let an input through. -/
structure Controller where
  pic : Nat → Bool
  gsi : Nat → Bool

/-- The bit of a line in the 8259s: `irq & 7` of the one or of the other. -/
def picBit (irq : Nat) : Nat :=
  if irq < 8 then irq else 8 + irq % 8

/-- `irq_mask` and `irq_unmask`. -/
def setPic (c : Controller) (irq : Nat) (value : Bool) : Controller :=
  { c with pic := update c.pic (picBit irq) value }

/-- `ioapic_mask_gsi` and `ioapic_unmask_gsi`. -/
def setGsi (p : Platform) (c : Controller) (gsi : Nat) (value : Bool) :
    Controller :=
  if p.covers gsi then { c with gsi := update c.gsi gsi value } else c

/-- `intr_line_mask` and `intr_line_unmask`. -/
def intrLineSet (p : Platform) (c : Controller) (line : Nat) (value : Bool) :
    Controller :=
  if p.ioapic then setGsi p c (p.resolve line) value else setPic c line value

/-- `intr_route_line_to_cpu`: the entry of the IOAPIC is written masked. -/
def intrRouteLine (p : Platform) (c : Controller) (line : Nat) : Controller :=
  if p.ioapic then
    setGsi p c (if line < 16 then p.resolve line else line) false
  else c

/-- `irq_register_handler` of a line below 16 opens its bit in the 8259s. -/
def irqRegisterHandler (c : Controller) (line : Nat) : Controller :=
  if line < 16 then setPic c line true else c

/-- The line is unmasked in the interrupt controller. -/
def isOpen (p : Platform) (c : Controller) (line : Nat) : Bool :=
  if p.ioapic then p.covers (p.resolve line) && c.gsi (p.resolve line)
  else c.pic (picBit line)

/-! ### Timers -/

/-- `arm_with_growth` of a one-shot timer: while the heap is full it is grown,
where there is memory (`growths`, with what the new storage held before). -/
def armWithGrowth (wheel : Timers.State) (t deadline : Nat) : List (Nat → Nat) → Timers.State × Bool
  | [] =>
    (Timers.armSection wheel t deadline 0, (Timers.armLocked wheel t deadline 0).2)
  | junk :: growths =>
    let armed := Timers.armSection wheel t deadline 0
    if (Timers.armLocked wheel t deadline 0).2 then (armed, true)
    else if Timers.maxCap < armed.cap * 2 then (armed, false)
    else
      armWithGrowth (Timers.growAdopt (Timers.growRead armed) armed.cap junk) t deadline growths

/-- `timer_arm_in`, for a time in milliseconds. -/
def timerArmIn (wheel : Timers.State) (t now ms : Nat)
    (growths : List (Nat → Nat)) : Timers.State × Bool :=
  armWithGrowth wheel t ((now + AsyncTimers.msToNs ms) % Timers.clockWord) growths

/-- `timer_init`. -/
def timerInit (wheel : Timers.State) (t : Nat) : Timers.State :=
  Timers.clearIndex (wheel.setTimer t ⟨0, 0, 0, false⟩) t

/-! ### Lines -/

/-- `irq_sharer_t`. -/
structure Sharer where
  notifyPort : Nat
  ownerPid : Nat
  used : Bool
  doneThisFire : Bool
deriving DecidableEq, Repr

/-- `irq_line_t` without its timer: that of the line `irq` is the timer `irq` of
the heap. -/
structure Line where
  sharers : List Sharer
  sharerCount : Nat
  pendingDone : Nat
  masked : Bool
  probeArmed : Bool
  probeBackoff : Bool
deriving DecidableEq, Repr

/-- The address of a PCI function. -/
structure Bdf where
  bus : Nat
  slot : Nat
  func : Nat
deriving DecidableEq, Repr

/-- The address in the register of a call. -/
def Bdf.ofReg (bsf : Nat) : Bdf := ⟨bsf / 65536 % 256, bsf / 256 % 32, bsf % 8⟩

/-- `pci_pending_t`. -/
structure Pending where
  used : Bool
  pid : Nat
  notifyPort : Nat
  bdf : Bdf
deriving DecidableEq, Repr

/-- `pci_binding_t`. -/
structure Binding where
  used : Bool
  bdf : Bdf
  gsi : Nat
deriving DecidableEq, Repr

/-- A `sys_irq_register_pci` that found no binding, and asks the chipset. -/
structure Call where
  pid : Nat
  port : Nat
  bdf : Bdf
deriving DecidableEq, Repr

/-- The lines, the tables of the discovery, the interrupt controller, the timer
heap and the calls under way.  `woken` are the notifications (port and line) and
`inits` the calls of `timer_init` on safety timers, with whether the timer was
armed; both are kept for the statements. -/
structure State where
  lines : Nat → Line
  pciPending : List Pending
  pciPendingCount : Nat
  pciBindings : List Binding
  ctl : Controller
  wheel : Timers.State
  calls : Nat → Option Call
  woken : List (Nat × Nat)
  inits : List (Nat × Bool)

/-- Overwrite a line. -/
def State.setLine (s : State) (irq : Nat) (line : Line) : State :=
  { s with lines := update s.lines irq line }

/-- Mask or unmask a line in the controller. -/
def State.setOpen (p : Platform) (s : State) (irq : Nat) (value : Bool) :
    State :=
  { s with ctl := intrLineSet p s.ctl irq value }

/-- `timer_cancel` of the safety timer of a line. -/
def State.cancelTimer (s : State) (irq : Nat) : State :=
  { s with wheel := Timers.timerCancel s.wheel irq }

/-- `notify_ports`. -/
def State.notify (s : State) (ports : List Nat) (irq : Nat) : State :=
  { s with woken := ports.map (fun port => (port, irq)) ++ s.woken }

/-- `sharer_detach_slot`. -/
def sharerDetachSlot (line : Line) (slot : Nat) : Line :=
  { line with
    sharers := line.sharers.set slot ⟨0, 0, false, false⟩
    sharerCount := line.sharerCount - 1 }

/-- `probe_park`. -/
def probePark (p : Platform) (s : State) (irq : Nat) : State :=
  { s with ctl := setGsi p s.ctl irq false }.setLine irq
    { s.lines irq with
      probeArmed := false
      probeBackoff := false
      masked := false
      pendingDone := 0 }

/-- `sharer_of`: the place of a process among the sharers. -/
def sharerOf (line : Line) (pid : Nat) : Option Nat :=
  line.sharers.findIdx? fun sharer => sharer.used && sharer.ownerPid == pid

/-- A sharer owes a report when a fire opens. -/
def Sharer.owe (sharer : Sharer) : Sharer :=
  if sharer.used then { sharer with doneThisFire := false } else sharer

/-- `line_open_fire`, and the ports to wake. -/
def lineOpenFire (p : Platform) (s : State) (irq : Nat) : State × List Nat :=
  let line := s.lines irq
  ((s.setOpen p irq false).setLine irq { line with
      masked := true
      pendingDone := line.sharerCount
      sharers := line.sharers.map Sharer.owe },
    (line.sharers.filter fun x => x.used && x.notifyPort != 0).map Sharer.notifyPort)

/-- `line_close_fire`. -/
def lineCloseFire (p : Platform) (s : State) (irq : Nat) : State :=
  ((s.cancelTimer irq).setLine irq { s.lines irq with masked := false }).setOpen
    p irq true

/-- `pending_ports`. -/
def pendingPorts (s : State) : List Nat :=
  (s.pciPending.filter fun x => x.used && x.notifyPort != 0).map Pending.notifyPort

/-- Arm the safety timer of a line. -/
def State.armTimer (s : State) (irq now ms : Nat) (growths : List (Nat → Nat)) : State × Bool :=
  ({ s with wheel := (timerArmIn s.wheel irq now ms growths).1 },
    (timerArmIn s.wheel irq now ms growths).2)

/-- `line_fire_bound`, and the ports to wake. -/
def lineFireBound (p : Platform) (s : State) (irq now : Nat)
    (growths : List (Nat → Nat)) : State × List Nat :=
  let (s, ports) := lineOpenFire p s irq
  let ports :=
    if 16 ≤ irq ∧ 0 < s.pciPendingCount then ports ++ pendingPorts s else ports
  let (s, ok) := s.armTimer irq now irqDoneTimeoutMs growths
  if ok then (s, ports)
  else
    ((s.setLine irq { s.lines irq with pendingDone := 0, masked := false
      }).setOpen p irq true, ports)

/-- `line_fire_probe`, and the ports to wake. -/
def lineFireProbe (p : Platform) (s : State) (irq now : Nat)
    (growths : List (Nat → Nat)) : State × List Nat :=
  let s := (s.setOpen p irq false).setLine irq { s.lines irq with masked := true }
  let ports := pendingPorts s
  let (s, ok) := s.armTimer irq now probeClaimTimeoutMs growths
  if ok then (s, ports) else (probePark p s irq, [])

/-- `irq_attach_sharer`, and whether it succeeds. -/
def irqAttachSharer (p : Platform) (s : State) (irq pid port : Nat) : State × Bool :=
  let line := s.lines irq
  match sharerOf line pid with
  | some slot =>
    let sharers := line.sharers.modify slot fun x =>
      { x with notifyPort := port }
    ((s.setLine irq { line with sharers := sharers }).setOpen p irq true, true)
  | none =>
    match line.sharers.findIdx? fun x => !x.used with
    | none => (s, false)
    | some slot =>
      let s := s.setLine irq { line with
        sharers := line.sharers.set slot ⟨port, pid, true, true⟩
        sharerCount := line.sharerCount + 1 }
      let s :=
        if line.sharerCount + 1 = 1 then
          { s with
            wheel := timerInit s.wheel irq
            inits := (irq, s.wheel.armed irq) :: s.inits
            ctl := intrRouteLine p (irqRegisterHandler s.ctl irq) irq }
        else s
      (s.setOpen p irq true, true)

/-- `irq_forward_handler`. -/
def irqForwardHandler (p : Platform) (s : State) (irq now : Nat)
    (growths : List (Nat → Nat)) : State :=
  if maxIrqForward ≤ irq then s
  else if 0 < (s.lines irq).sharerCount then
    let (s, ports) := lineFireBound p s irq now growths
    s.notify ports irq
  else if (s.lines irq).probeArmed = true ∧ 0 < s.pciPendingCount then
    let (s, ports) := lineFireProbe p s irq now growths
    s.notify ports irq
  else s

/-- `irq_line_watchdog`. -/
def irqLineWatchdog (p : Platform) (s : State) (irq now : Nat)
    (growths : List (Nat → Nat)) : State :=
  let line := s.lines irq
  if line.masked = false then s
  else if line.sharerCount = 0 ∧ line.probeArmed = true then
    if line.probeBackoff then
      { s with ctl := setGsi p s.ctl irq true }.setLine irq
        { line with probeBackoff := false, masked := false }
    else if 0 < s.pciPendingCount then
      let (s, ok) := s.armTimer irq now probeBackoffMs growths
      if ok then s.setLine irq { line with probeBackoff := true }
      else probePark p s irq
    else probePark p s irq
  else
    (s.setLine irq { line with pendingDone := 0, masked := false }).setOpen p
      irq true

/-- `irq_line_ack`, and whether the process is a sharer. -/
def irqLineAck (p : Platform) (s : State) (irq pid : Nat) (handled : Bool) : State × Bool :=
  let line := s.lines irq
  match sharerOf line pid with
  | none => (s, false)
  | some me =>
    if line.masked = true ∧ 0 < line.pendingDone ∧
        (line.sharers[me]?.any fun x => !x.doneThisFire) = true then
      let sharers := line.sharers.modify me fun x =>
        { x with doneThisFire := true }
      let s := s.setLine irq { line with
        sharers := sharers
        pendingDone := line.pendingDone - 1 }
      if handled = true ∨ line.pendingDone - 1 = 0 then
        (lineCloseFire p s irq, true)
      else (s, true)
    else (s, true)

/-! ### Discovery -/

/-- `pci_pending_add`. -/
def pciPendingAdd (s : State) (pid port : Nat) (bdf : Bdf) : State :=
  match s.pciPending.findIdx? fun x => x.used && x.pid == pid && x.bdf == bdf with
  | some i =>
    { s with pciPending := s.pciPending.modify i fun x =>
        { x with notifyPort := port } }
  | none =>
    match s.pciPending.findIdx? fun x => !x.used with
    | none => s
    | some i =>
      { s with
        pciPending := s.pciPending.set i ⟨true, pid, port, bdf⟩
        pciPendingCount := s.pciPendingCount + 1 }

/-- `pci_binding_put`. -/
def pciBindingPut (s : State) (bdf : Bdf) (gsi : Nat) : State :=
  match s.pciBindings.findIdx? fun x => x.used && x.bdf == bdf with
  | some i =>
    { s with pciBindings := s.pciBindings.modify i fun x =>
        { x with gsi := gsi } }
  | none =>
    match s.pciBindings.findIdx? fun x => !x.used with
    | none => s
    | some i => { s with pciBindings := s.pciBindings.set i ⟨true, bdf, gsi⟩ }

/-- `pci_binding_lookup`. -/
def pciBindingLookup (s : State) (bdf : Bdf) : Option Nat :=
  (s.pciBindings.find? fun x => x.used && x.bdf == bdf).map Binding.gsi

/-- One round of `pci_discovery_arm`. -/
def armLine (p : Platform) (s : State) (gsi : Nat) : State :=
  if p.covers gsi = false then s
  else if 0 < (s.lines gsi).sharerCount ∨ (s.lines gsi).probeArmed = true then s
  else
    { s with ctl := setGsi p s.ctl gsi true }.setLine gsi
      { s.lines gsi with probeArmed := true, masked := false }

/-- `pci_discovery_arm`. -/
def pciDiscoveryArm (p : Platform) (s : State) : State :=
  (List.range' 16 16).foldl (armLine p) s

/-- One round of `pci_discovery_disarm_unbound`. -/
def disarmLine (p : Platform) (s : State) (gsi : Nat) : State :=
  if (s.lines gsi).probeArmed = false ∨ 0 < (s.lines gsi).sharerCount then s
  else
    { s.cancelTimer gsi with ctl := setGsi p s.ctl gsi false }.setLine gsi
      { s.lines gsi with
        probeArmed := false
        probeBackoff := false
        masked := false
        pendingDone := 0 }

/-- `pci_discovery_disarm_unbound`. -/
def pciDiscoveryDisarmUnbound (p : Platform) (s : State) : State :=
  (List.range' 16 16).foldl (disarmLine p) s

/-! ### Calls and the clean-up -/

/-- `sys_irq_register_pci` up to the question to the chipset; `iline` is the
interrupt line of the configuration space. -/
def sysIrqRegisterPci (p : Platform) (s : State) (thread pid bsf port iline : Nat) :
    State :=
  if p.ioapic = false then
    if iline = 0 ∨ 16 ≤ iline then s else (irqAttachSharer p s iline pid port).1
  else
    match pciBindingLookup s (.ofReg bsf) with
    | some gsi => (irqAttachSharer p s gsi pid port).1
    | none =>
      { s with
        calls := update s.calls thread
          (some ⟨pid, port, .ofReg bsf⟩) }

/-- `sys_irq_register_pci` from there: what the chipset answered, or the
discovery. -/
def resolvePci (p : Platform) (s : State) (thread : Nat) (call : Call)
    (answer : Option Nat) : State :=
  let s := { s with calls := update s.calls thread none }
  match answer with
  | some gsi =>
    if 16 ≤ gsi ∧ gsi < maxIrqForward ∧ p.covers gsi = true then
      (irqAttachSharer p (pciBindingPut s call.bdf gsi) gsi call.pid call.port).1
    else pciDiscoveryArm p (pciPendingAdd s call.pid call.port call.bdf)
  | none => pciDiscoveryArm p (pciPendingAdd s call.pid call.port call.bdf)

/-- The part of `sys_irq_pci_claim` before the sharer is attached: the line
leaves the discovery, and the resolution is over. -/
def endResolution (s : State) (gsi place : Nat) (pending : Pending) : State :=
  let line := s.lines gsi
  let s :=
    if line.sharerCount = 0 then
      (s.cancelTimer gsi).setLine gsi { line with masked := false, pendingDone := 0 }
    else s
  let s := s.setLine gsi { s.lines gsi with probeArmed := false, probeBackoff := false }
  let s := pciBindingPut s pending.bdf gsi
  { s with
    pciPending := s.pciPending.modify place fun x => { x with used := false }
    pciPendingCount := s.pciPendingCount - 1 }

/-- `sys_irq_pci_claim`. -/
def sysIrqPciClaim (p : Platform) (s : State) (pid gsi : Nat) : State :=
  if gsi < 16 ∨ maxIrqForward ≤ gsi ∨ p.covers gsi = false then s
  else
    match s.pciPending.findIdx? fun x => x.used && x.pid == pid with
    | none => s
    | some place =>
      match s.pciPending[place]? with
      | none => s
      | some pending =>
        let s := endResolution s gsi place pending
        let s := (irqAttachSharer p s gsi pid pending.notifyPort).1
        if s.pciPendingCount = 0 then pciDiscoveryDisarmUnbound p s else s

/-- One round of `irq_cleanup` over the sharers of a line. -/
def detachDead (pid : Nat) (line : Line) (slot : Nat) : Line :=
  match line.sharers[slot]? with
  | none => line
  | some sharer =>
    if sharer.used = true ∧ sharer.ownerPid = pid then
      let line :=
        if line.masked = true ∧ 0 < line.pendingDone ∧ sharer.doneThisFire = false then
          { line with pendingDone := line.pendingDone - 1 }
        else line
      sharerDetachSlot line slot
    else line

/-- One round of `irq_cleanup` over the lines. -/
def cleanLine (p : Platform) (pid : Nat) (s : State) (irq : Nat) : State :=
  match sharerOf (s.lines irq) pid with
  | none => s
  | some _ =>
    let line := (List.range maxSharersPerLine).foldl (detachDead pid) (s.lines irq)
    if line.sharerCount = 0 then
      ((s.cancelTimer irq).setOpen p irq false).setLine irq
        { line with masked := false, pendingDone := 0 }
    else if line.masked = true ∧ line.pendingDone = 0 then
      ((s.cancelTimer irq).setLine irq { line with masked := false }).setOpen p
        irq true
    else s.setLine irq line

/-- The resolutions of a process are over. -/
def dropPending (s : State) (pid : Nat) : State :=
  { s with
    pciPending := s.pciPending.map fun x =>
      if x.used = true ∧ x.pid = pid then { x with used := false } else x
    pciPendingCount := s.pciPendingCount -
      s.pciPending.countP fun x => x.used && x.pid == pid }

/-- `irq_cleanup`. -/
def irqCleanup (p : Platform) (s : State) (pid : Nat) : State :=
  let removed := s.pciPending.any fun x => x.used && x.pid == pid
  let s := dropPending s pid
  let s :=
    if removed = true ∧ s.pciPendingCount = 0 then
      pciDiscoveryDisarmUnbound p s
    else s
  (List.range maxIrqForward).foldl (cleanLine p pid) s

/-! ### Steps -/

/-- The callback of the safety timer that a CPU has called. -/
def callback (p : Platform) (s : State) (cpu now : Nat)
    (growths : List (Nat → Nat)) : Option State :=
  match s.wheel.drains cpu with
  | some ⟨_, .calling irq⟩ =>
    if irq < maxIrqForward then
      let s := irqLineWatchdog p s irq now growths
      (Timers.exec s.wheel (.call cpu)).map fun wheel =>
        { s with wheel := wheel }
    else none
  | _ => none

/-- A section of the heap that is no step of a safety timer's user or
callback. -/
def foreign (s : Timers.State) : Timers.Label → Bool
  | .armAt t _ | .armPeriodic t _ _ | .cancel t => maxIrqForward ≤ t
  | .call cpu =>
    match s.drains cpu with
    | some ⟨_, .calling t⟩ => maxIrqForward ≤ t
    | _ => false
  | _ => true

/-- The steps. -/
inductive Label where
  | fire (irq now : Nat) (growths : List (Nat → Nat))
  | irqDone (pid : Nat) (irq report : UInt32)
  | irqRegister (pid : Nat) (irq port : UInt32)
  | registerPci (thread pid : Nat) (bsf port : UInt32) (iline : UInt8)
  | resolve (thread : Nat) (answer : Option UInt8)
  | pciClaim (pid : Nat) (gsi : UInt32)
  | cleanup (pid : Nat)
  | callback (cpu now : Nat) (growths : List (Nat → Nat))
  | wheel (label : Timers.Label)

/-- The state a step leaves, where it can be taken. -/
def exec (p : Platform) (s : State) : Label → Option State
  | .fire irq now growths => some (irqForwardHandler p s irq now growths)
  | .irqDone pid irq report =>
    if irq.toNat < maxIrqForward then
      some (irqLineAck p s irq.toNat pid (report.toNat == irqDoneMine)).1
    else some s
  | .irqRegister pid irq port =>
    if irq.toNat < maxIrqForward then
      some (irqAttachSharer p s irq.toNat pid port.toNat).1
    else some s
  | .registerPci thread pid bsf port iline =>
    if s.calls thread = none then
      some (sysIrqRegisterPci p s thread pid bsf.toNat port.toNat iline.toNat)
    else none
  | .resolve thread answer =>
    (s.calls thread).map fun call =>
      resolvePci p s thread call (answer.map UInt8.toNat)
  | .pciClaim pid gsi => some (sysIrqPciClaim p s pid gsi.toNat)
  | .cleanup pid => some (irqCleanup p s pid)
  | .callback cpu now growths => callback p s cpu now growths
  | .wheel label =>
    if foreign s.wheel label then
      (Timers.exec s.wheel label).map fun wheel => { s with wheel := wheel }
    else none

/-- A step takes a state to the next one. -/
def step (p : Platform) (s : State) (label : Label) (s' : State) : Prop :=
  exec p s label = some s'

/-- After `driver_syscalls_init`: the safety timers are initialised; the
controller is as the kernel has set it up. -/
def initial (ctl : Controller) : State where
  lines _ := ⟨List.replicate maxSharersPerLine ⟨0, 0, false, false⟩, 0, 0, false, false, false⟩
  pciPending := List.replicate maxPciPending ⟨false, 0, 0, ⟨0, 0, 0⟩⟩
  pciPendingCount := 0
  pciBindings := List.replicate maxPciBindings ⟨false, ⟨0, 0, 0⟩, 0⟩
  ctl := ctl
  wheel := Timers.initial
  calls _ := none
  woken := []
  inits := []

end MainDob.Kernel.IrqLines
