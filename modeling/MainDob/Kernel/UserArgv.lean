/-
Purpose: The arguments of a new program: the test that sys_spawn_data of
  kernel/syscall/syscall.c makes on a blob of arguments, and the frame that
  kernel/proc/user_argv.c builds from it on the stack of the program.
Trusted boundary: the copies from user memory succeed; the stack pages of the
  program are mapped; the header of the blob and the blob are two copies, so
  they may differ
Main exports: countNuls, validateArgv, footprintFits
-/
import MainDob.Lib.Memory

namespace MainDob.Kernel.UserArgv

open Lib.Mem

def userArgvMaxBlobBytes : Nat := 4096

def userStackTop : Nat := 0xBFFE0000

def userStackPages : Nat := 16

/-- The number of values of a `uint32_t`. -/
def wordSize : Nat := 2 ^ 32

/-! ### The test of the blob -/

/-- The loop that counts the NULs of the string pool. -/
def countNuls : List UInt8 → Nat
  | [] => 0
  | byte :: rest => if byte = 0 then countNuls rest + 1 else countNuls rest

/-- The test of `sys_spawn_data` on a blob: `argc` and `size` are the words of
its header, `blob` are its bytes.  The result is the string pool. -/
def validateArgv (argc size : Nat) (blob : List UInt8) : Option (List UInt8) :=
  if size < 8 ∨ size > userArgvMaxBlobBytes ∨ blob.length ≠ size then none
  else if countNuls (blob.drop 8) ≠ argc then none
  else some (blob.drop 8)

/-! ### The frame -/

/-- `footprint_fits`. -/
def footprintFits (argc argvBytes : Nat) : Bool :=
  if argc > 1024 then false
  else (4 + (argc + 1) * 4 + argvBytes + 3) % wordSize ≤ userArgvMaxBlobBytes

/-- The inner loop of `emit_pointers`, from an offset on, with `left` bytes to
go: to the next NUL or to the end of the pool. -/
def skipString (memory : Memory) (stringsStart argvBytes : Nat) : Nat → Nat → Nat
  | 0, offset => offset
  | left + 1, offset =>
    if offset < argvBytes ∧ memory (stringsStart + offset) ≠ 0 then
      skipString memory stringsStart argvBytes left (offset + 1)
    else offset

/-- The loop of `emit_pointers` with `left` pointers to write, the next of them
at `slot`; it fails when the pool ends before the arguments do. -/
def emitPointers (stringsStart argvBytes : Nat) : Nat → Nat → Nat → Memory → Bool × Memory
  | 0, slot, _, memory => (true, writeWord memory slot 0)
  | left + 1, slot, offset, memory =>
    let memory := writeWord memory slot (stringsStart + offset)
    let offset :=
      skipString memory stringsStart argvBytes (argvBytes - offset) offset
    if offset ≥ argvBytes ∧ left ≠ 0 then (false, memory)
    else emitPointers stringsStart argvBytes left (slot + 4) (offset + 1) memory

/-- `user_argv_setup` on the stack of the program.  The stack pointer 0 says that
no frame was built. -/
def userArgvSetup (memory : Memory) (stackTop argc : Nat)
    (argvStrings : List UInt8) : Nat × Memory :=
  let strings := if argc = 0 then [] else argvStrings
  let argvBytes := strings.length
  if footprintFits argc argvBytes = false then (0, memory)
  else
    let stringsStart := (stackTop + wordSize - argvBytes) % wordSize
    let ptrsEnd := stringsStart / 4 * 4
    let ptrsStart := (ptrsEnd + wordSize - (argc + 1) * 4) % wordSize
    let newEsp := (ptrsStart + wordSize - 4) % wordSize
    let stackBase := userStackTop - userStackPages * 4096
    if newEsp < stackBase ∨ newEsp ≥ stackTop then (0, memory)
    else
      let memory := writeWord memory newEsp argc
      let memory := writeBytes memory stringsStart strings
      match emitPointers stringsStart argvBytes argc ptrsStart 0 memory with
      | (false, memory) => (0, memory)
      | (true, memory) => (newEsp, memory)

/-! ### What the program finds -/

/-- The NUL-terminated strings of a pool, in order; what stands behind the last
NUL is none. -/
def cStrings : List UInt8 → List (List UInt8)
  | [] => []
  | byte :: rest =>
    if byte = 0 then [] :: cStrings rest
    else
      match cStrings rest with
      | [] => []
      | string :: strings => (byte :: string) :: strings

/-- The frame of the arguments fits its page. -/
def Fits (argc argvBytes : Nat) : Prop :=
  argc ≤ 1024 ∧ 4 + (argc + 1) * 4 + (if argc = 0 then 0 else argvBytes) + 3 ≤ userArgvMaxBlobBytes

/-- The frame a program finds at its stack pointer: `argc`, then a pointer to
each string with its NUL, then a null pointer; nothing outside the stack pages
was written. -/
structure ArgvFrame (memory : Memory) (argc : Nat) (pool : List UInt8)
    (esp : Nat) (memory' : Memory) : Prop where
  count : readWord memory' esp = argc
  strings : ∀ i < argc, ∃ string, (cStrings pool)[i]? = some string ∧
    readBytes memory' (readWord memory' (esp + 4 + 4 * i)) (string.length + 1) = string ++ [0]
  last : readWord memory' (esp + 4 + 4 * argc) = 0
  outside : ∀ a, a < userStackTop - userStackPages * 4096 ∨ userStackTop ≤ a → memory' a = memory a

end MainDob.Kernel.UserArgv
