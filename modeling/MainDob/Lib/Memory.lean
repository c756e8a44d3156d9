/-
Purpose: Memory as a function from addresses to bytes: writing a block of bytes
  or a little-endian word at an address, and reading it back.
Main exports: Memory, writeBytes, readBytes
-/
import Mathlib.Algebra.Ring.Nat
import Mathlib.Data.List.Basic

namespace MainDob.Lib.Mem

open List

/-- The byte at every address. -/
abbrev Memory := Nat → UInt8

/-- Memory with bytes written from an address on. -/
def writeBytes (memory : Memory) (addr : Nat) (bytes : List UInt8) : Memory :=
  fun a => if addr ≤ a then (bytes[a - addr]?).getD (memory a) else memory a

/-- The bytes of memory from an address on. -/
def readBytes (memory : Memory) (addr count : Nat) : List UInt8 :=
  (List.range count).map fun i => memory (addr + i)

/-- Two blocks of memory share no byte. -/
def Apart (one oneSize two twoSize : Nat) : Prop :=
  one + oneSize ≤ two ∨ two + twoSize ≤ one

theorem readBytes_writeBytes (memory : Memory) (addr : Nat) (bytes : List UInt8) :
    readBytes (writeBytes memory addr bytes) addr bytes.length = bytes := by
  refine ext_getElem (by simp [readBytes]) fun i below inside => ?_
  simp [readBytes, writeBytes, inside]

theorem writeBytes_outside (memory : Memory) {addr a : Nat} {bytes : List UInt8}
    (outside : a < addr ∨ addr + bytes.length ≤ a) : writeBytes memory addr bytes a = memory a := by
  unfold writeBytes
  split
  · rw [List.getElem?_eq_none (by omega), Option.getD_none]
  · rfl

theorem readBytes_apart (memory : Memory) {addr count other : Nat}
    {bytes : List UInt8} (apart : Apart addr count other bytes.length) :
    readBytes (writeBytes memory other bytes) addr count = readBytes memory addr count := by
  refine map_congr_left fun i inside => ?_
  have below : i < count := mem_range.mp inside
  unfold Apart at apart
  exact writeBytes_outside memory (by omega)

theorem readBytes_succ (memory : Memory) (addr count : Nat) :
    readBytes memory addr (count + 1) = memory addr :: readBytes memory (addr + 1) count := by
  simp only [readBytes, range_succ_eq_map, map_cons, map_map, add_zero]
  refine congrArg _ (map_congr_left fun i _ => ?_)
  simp [add_assoc, add_comm 1]

theorem readBytes_append {memory : Memory} {addr : Nat} {first second : List UInt8} :
    readBytes memory addr (first ++ second).length = first ++
    second ↔ readBytes memory addr first.length = first ∧
        readBytes memory (addr + first.length) second.length = second := by
  induction first generalizing addr with
  | nil => simp [readBytes]
  | cons _ _ ih =>
    rw [cons_append, length_cons, length_cons, readBytes_succ,
      readBytes_succ, List.cons.injEq, List.cons.injEq, ih, and_assoc, add_assoc, add_comm 1]

/-! ### Words -/

/-- A 32-bit number as four bytes, the lowest first. -/
def wordBytes (value : Nat) : List UInt8 :=
  [.ofNat value, .ofNat (value / 256), .ofNat (value / 65536), .ofNat (value / 16777216)]

def writeWord (memory : Memory) (addr value : Nat) : Memory :=
  writeBytes memory addr (wordBytes value)

def readWord (memory : Memory) (addr : Nat) : Nat :=
  (memory addr).toNat + 256 * (memory (addr + 1)).toNat +
    65536 * (memory (addr + 2)).toNat + 16777216 * (memory (addr + 3)).toNat

theorem readWord_writeWord (memory : Memory) (addr : Nat) {value : Nat} (inWord : value < 2 ^ 32) :
    readWord (writeWord memory addr value) addr = value := by
  simp [readWord, writeWord, writeBytes, wordBytes]
  omega

end MainDob.Lib.Mem
