/-
Purpose: The receive area of a process: the delivery of a kernel payload by
  ipc_copy_to_user_buf of kernel/syscall/syscall.c, into the bump-with-wrap area
  or into the overflow region that grows and shrinks on demand.
Trusted boundary: one delivery to a process is one step; the answers of the
  region and frame allocators and where a copy to user memory faults are choices
  of the environment; the process leaves its overflow region mapped; console
  messages are not modelled
Main exports: Payload, Receiver, Environment
-/
import MainDob.Lib.Memory
import MainDob.Lib.Runs

namespace MainDob.Kernel.IpcBuffer

open Lib Lib.Mem

def ipcBufVaddr : Nat := 0x7FF00000

/-- `IPC_BUF_SIZE`, sixteen pages. -/
def ipcBufSize : Nat := 16 * 4096

def pageSize : Nat := 4096

/-- `IPC_OVERFLOW_SHRINK_FLOOR_PAGES`. -/
def overflowShrinkFloorPages : Nat := 8

/-- The kernel's part of the address space. -/
def kernelSpan : Nat := 0x40000000

/-- A payload: the bytes of a kernel buffer, which lies in the kernel's part of
the address space. -/
structure Payload where
  bytes : List UInt8
  inKernel : bytes.length ≤ kernelSpan

/-- The receiving process.  The overflow region is absent when `overflowVaddr`
is 0; `memory` is the user memory of the process. -/
structure Receiver where
  ipcBufReady : Bool
  ipcBufOffset : Nat
  overflowVaddr : Nat
  overflowPages : Nat
  overflowCapacity : Nat
  memory : Memory

/-- A new process. -/
def Receiver.initial (ready : Bool) (memory : Memory) : Receiver where
  ipcBufReady := ready
  ipcBufOffset := 0
  overflowVaddr := 0
  overflowPages := 0
  overflowCapacity := 0
  memory := memory

/-- What a delivery finds: the answers of `vregion_alloc` on the overflow window
and on the whole user half, whether the frames come in one run or how many come
one by one, and after how many bytes the copy into the area faults. -/
structure Environment where
  inWindow : Nat
  anywhere : Nat
  contiguous : Bool
  frames : Nat
  fault : Option Nat
deriving DecidableEq, Repr

/-- `(x + 15) & ~15`. -/
def align16 (x : Nat) : Nat := (x + 15) / 16 * 16

/-- Where the area takes a payload: at the aligned offset, or at 0 when it does
not fit behind it. -/
def place (offset size : Nat) : Nat :=
  if align16 offset + align16 size > ipcBufSize then 0 else align16 offset

/-- The offset after a payload was taken. -/
def offsetAfter (offset size : Nat) : Nat :=
  if place offset size + align16 size ≥ ipcBufSize then 0
  else place offset size + align16 size

/-- `ipc_free_overflow`. -/
def ipcFreeOverflow (r : Receiver) : Receiver :=
  if r.overflowVaddr = 0 ∨ r.overflowPages = 0 then r
  else { r with overflowVaddr := 0, overflowPages := 0, overflowCapacity := 0 }

/-- The pages a payload needs. -/
def pagesNeeded (size : Nat) : Nat := (size + pageSize - 1) / pageSize

/-- Is the overflow region too large to be kept for so few pages? -/
def oversized (r : Receiver) (pages : Nat) : Bool :=
  r.overflowCapacity ≥ pages * 4 && r.overflowCapacity > overflowShrinkFloorPages

/-- The answer of the two calls of `vregion_alloc`. -/
def Environment.vaddr (env : Environment) : Nat :=
  if env.inWindow = 0 then env.anywhere else env.inWindow

/-- The pages that got a frame. -/
def Environment.mapped (env : Environment) (pages : Nat) : Nat :=
  if env.contiguous then pages else min env.frames pages

/-- The delivery of a payload larger than the area.  The address 0 says that the
payload was stripped. -/
def deliverOverflow (r : Receiver) (bytes : List UInt8) (env : Environment) : Nat × Receiver :=
  let pages := pagesNeeded bytes.length
  if r.overflowVaddr ≠ 0 ∧ pages ≤ r.overflowCapacity ∧ oversized r pages = false then
    (r.overflowVaddr, { r with memory := writeBytes r.memory r.overflowVaddr bytes })
  else
    let r := if r.overflowVaddr ≠ 0 then ipcFreeOverflow r else r
    if env.vaddr = 0 then (0, r)
    else if env.mapped pages < pages then (0, r)
    else (env.vaddr, { r with
        overflowVaddr := env.vaddr
        overflowPages := pages
        overflowCapacity := pages
        memory := writeBytes r.memory env.vaddr bytes })

/-- `ipc_copy_to_user_buf`.  The address 0 says that nothing was delivered. -/
def ipcCopyToUserBuf (r : Receiver) (kdata : Option Payload) (env : Environment) : Nat × Receiver :=
  match kdata with
  | none => (0, r)
  | some payload =>
    let size := payload.bytes.length
    if size = 0 ∨ r.ipcBufReady = false then (0, r)
    else if size > ipcBufSize then deliverOverflow r payload.bytes env
    else
      let dst := ipcBufVaddr + place r.ipcBufOffset size
      match env.fault with
      | some copied =>
        (0, { r with
          memory := writeBytes r.memory dst
            (payload.bytes.take (min copied (size - 1))) })
      | none =>
        (dst, { r with
          memory := writeBytes r.memory dst payload.bytes
          ipcBufOffset := offsetAfter r.ipcBufOffset size })

/-! ### Runs -/

/-- A call of `ipc_copy_to_user_buf`. -/
structure Delivery where
  kdata : Option Payload
  env : Environment

/-- One call. -/
def step (r : Receiver) (call : Delivery) (r' : Receiver) : Prop :=
  (ipcCopyToUserBuf r call.kdata call.env).2 = r'

/-- A call delivers a payload at an address. -/
def Delivers (r : Receiver) (call : Delivery) (payload : Payload) (dst : Nat)
    (r' : Receiver) : Prop :=
  call.kdata = some payload ∧ dst ≠ 0 ∧ ipcCopyToUserBuf r call.kdata call.env = (dst, r')

/-- A call that delivers nothing. -/
def Strips (r : Receiver) (call : Delivery) (r' : Receiver) : Prop :=
  ipcCopyToUserBuf r call.kdata call.env = (0, r')

/-- A block lies inside the receive area. -/
def InArea (dst size : Nat) : Prop :=
  ipcBufVaddr ≤ dst ∧ dst + size ≤ ipcBufVaddr + ipcBufSize

/-- What decides whether a delivery of `first` bytes and the next one of
`second` bytes lie apart: the first one wraps, or the second one fits behind it,
or it fits before it. -/
def Clear (offset first second : Nat) : Prop :=
  offset + align16 first >
    ipcBufSize ∨ offset + align16 first + align16 second ≤ ipcBufSize ∨ align16 second ≤ offset

instance (offset first second : Nat) : Decidable (Clear offset first second) :=
  inferInstanceAs (Decidable (_ ∨ _ ∨ _))

end MainDob.Kernel.IpcBuffer
