/-
Purpose: The reservation table of kernel/irq/discovery.c over the sharers of the
  interrupt lines: the search for a free line, the registration that promotes a
  reservation, the death of a driver and the passing of time.
Trusted boundary: each call is one step; the clock counts milliseconds and does not
  wrap; processes have pids from 1 on.  Of a line only the owners of its used slots are
  followed; the rest of it is that of `MainDob.Kernel.IrqLines`
Main exports: Reservation, Discovery, isExpired
-/
import MainDob.Kernel.IrqLines

namespace MainDob.Kernel.IrqDiscovery

open Function (update)
open IrqLines (maxIrqForward maxSharersPerLine)

def irqDiscoveryLines : Nat := 16

def irqReservationTimeoutMs : Nat := 2000

/-- `legacy_lines`: the timer, the keyboard, the cascade and the clock. -/
def legacyLines : List Nat := [0, 1, 2, 8]

/-- The holder of the lines of the kernel. -/
def kernelSentinel : Nat := 0xFFFF

/-- `irq_reservation_t`. -/
structure Reservation where
  holder : Nat
  expiresAt : Nat
deriving DecidableEq

/-- The owners of the used slots of each line, the reservations and the clock.
`grants` says for a line and a process when the lease ends that
`irq_discovery_find_free` gave it last, 0 where it has none; it is kept for the
statements. -/
structure Discovery where
  sharers : Nat → List Nat
  reservations : Nat → Reservation
  now : Nat
  grants : Nat → Nat → Nat

/-- `is_expired`. -/
def isExpired (r : Reservation) (now : Nat) : Bool :=
  if r.expiresAt = 0 then false else r.expiresAt ≤ now

/-- `is_free`. -/
def isFree (r : Reservation) (now : Nat) : Bool :=
  if r.holder = 0 then true else isExpired r now

/-- The end of the lease that a process has on a line. -/
def Discovery.setGrant (s : Discovery) (line pid until_ : Nat) : Nat → Nat → Nat :=
  update s.grants line (update (s.grants line) pid until_)

/-- A lease of a line, new or refreshed. -/
def Discovery.lease (s : Discovery) (line caller : Nat) : Discovery :=
  { s with
    reservations := update s.reservations line
      ⟨caller, s.now + irqReservationTimeoutMs⟩
    grants := s.setGrant line caller (s.now + irqReservationTimeoutMs) }

/-- The first line the caller has a live reservation of. -/
def heldBy (s : Discovery) (caller : Nat) : Option Nat :=
  (List.range irqDiscoveryLines).find? fun i =>
    (s.reservations i).holder = caller && !isExpired (s.reservations i) s.now

/-- `irq_discovery_find_free`, and the line it returns. -/
def irqDiscoveryFindFree (s : Discovery) (caller : Nat) : Discovery × Option Nat :=
  if caller = 0 then (s, none)
  else
    match heldBy s caller with
    | some i => (s.lease i caller, some i)
    | none =>
      match (List.range' 3 (irqDiscoveryLines - 3)).find? fun i =>
        isFree (s.reservations i) s.now with
      | some i => (s.lease i caller, some i)
      | none => (s, none)

/-- `irq_discovery_promote`. -/
def irqDiscoveryPromote (s : Discovery) (line owner : Nat) : Discovery :=
  if irqDiscoveryLines ≤ line then s
  else
    { s with
      reservations := update s.reservations line ⟨owner, 0⟩
      grants := s.setGrant line owner 0 }

/-- `irq_discovery_release_for_pid`. -/
def irqDiscoveryReleaseForPid (s : Discovery) (pid : Nat) : Discovery :=
  if pid = 0 then s
  else
    { s with reservations := fun i =>
        if (s.reservations i).holder = pid then ⟨0, 0⟩ else s.reservations i }

/-- `irq_attach_sharer`: a new sharer promotes the reservation of the line. -/
def irqAttachSharer (s : Discovery) (line pid : Nat) : Discovery :=
  if pid ∈ s.sharers line then s
  else if maxSharersPerLine ≤ (s.sharers line).length then s
  else
    irqDiscoveryPromote { s with sharers := update s.sharers line (pid :: s.sharers line) } line pid

/-- `irq_cleanup`; the dead process has no leases. -/
def irqCleanup (s : Discovery) (pid : Nat) : Discovery :=
  irqDiscoveryReleaseForPid { s with
      sharers := fun line => (s.sharers line).filter (· ≠ pid)
      grants := fun line => update (s.grants line) pid 0 } pid

/-- The steps. -/
inductive Label where
  | findFree (caller : Nat)
  | register (pid line : Nat)
  | death (pid : Nat)
  | pass (ms : Nat)

/-- The state a step leaves, where it can be taken. -/
def exec (s : Discovery) : Label → Option Discovery
  | .findFree caller => some (irqDiscoveryFindFree s caller).1
  | .register pid line =>
    if pid ≠ 0 ∧ line < maxIrqForward then some (irqAttachSharer s line pid) else none
  | .death pid => if pid ≠ 0 then some (irqCleanup s pid) else none
  | .pass ms => some { s with now := s.now + ms }

/-- A step takes a state to the next one. -/
def step (s : Discovery) (label : Label) (s' : Discovery) : Prop := exec s label = some s'

/-- `irq_discovery_init`, at some time. -/
def initial (now : Nat) : Discovery where
  sharers _ := []
  reservations i := if i ∈ legacyLines then ⟨kernelSentinel, 0⟩ else ⟨0, 0⟩
  now := now
  grants _ _ := 0

end MainDob.Kernel.IrqDiscovery
