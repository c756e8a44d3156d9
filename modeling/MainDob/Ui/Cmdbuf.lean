/-
Purpose: Command buffers on their way to `boot/dobinterface`: the segments in which a client
  sends a frame, and `cmdbuf_reasm_ingest` of `cmdbuf.c`, which puts them together.
Trusted boundary: memory is enough; the buffer is `NULL` as long as its capacity is 0
Main exports: Msg, Reasm, cmdbufReasmIngest
-/
import Mathlib.Algebra.Ring.Nat
import MainDob.Lib.Machines

namespace MainDob.Ui

/-- `DOBUI_CMDBUF_SEG_BYTES`. -/
def cmdbufSegBytes : Nat := 32768

/-- `DOBUI_CMDBUF_MAX_BYTES`. -/
def cmdbufMaxBytes : Nat := 1048576

/-- A `dob_msg_t`; `NULL` is no payload. -/
structure Msg where
  payload : Option (List UInt8)
  arg1 : Nat
  arg2 : Nat
  arg3 : Nat

/-- A `cmdbuf_reasm_t`, with the bytes of `buf` that were filled. -/
structure Reasm where
  bytes : List UInt8 := []
  cap : Nat := 0
  totalSegs : Nat := 0
  totalBytes : Nat := 0
  expectSeq : Nat := 0

/-- The segments of a buffer. -/
def segsOf (size : Nat) : Nat := (size + cmdbufSegBytes - 1) / cmdbufSegBytes

/-- The end of `cmdbuf_reasm_ingest`: the payload is put behind what is there. -/
def absorb (r : Reasm) (seq : Nat) (pl : List UInt8) : Option (List UInt8) × Reasm :=
  if r.cap = 0 ∨ (r.bytes.length + pl.length) % 2 ^ 32 > r.totalBytes then
    (none, { r with expectSeq := 0 })
  else
    let r := { r with bytes := r.bytes ++ pl, expectSeq := (seq + 1) % 2 ^ 32 }
    if r.expectSeq = r.totalSegs ∧ r.bytes.length = r.totalBytes then
      (some r.bytes, { r with expectSeq := 0 })
    else (none, r)

/-- `cmdbuf_reasm_ingest`. -/
def cmdbufReasmIngest (r : Reasm) (msg : Msg) : Option (List UInt8) × Reasm :=
  if msg.arg2 ≤ 1 then (msg.payload.filter (· ≠ []), { r with expectSeq := 0 })
  else
    let pl := msg.payload.getD []
    if pl = [] ∨ msg.arg3 = 0 ∨ msg.arg3 > cmdbufMaxBytes ∨ msg.arg2 ≠ segsOf msg.arg3 then
      (none, { r with expectSeq := 0 })
    else if msg.arg1 = 0 then
      absorb { r with
        bytes := []
        cap := if msg.arg3 > r.cap then msg.arg3 else r.cap
        totalSegs := msg.arg2
        totalBytes := msg.arg3 } 0 pl
    else if msg.arg1 ≠ r.expectSeq ∨ r.totalSegs ≠ msg.arg2 ∨ r.totalBytes ≠ msg.arg3 then
      (none, { r with expectSeq := 0 })
    else absorb r msg.arg1 pl

/-! ### The client -/

/-- A command buffer that a client sends. -/
structure Frame where
  bytes : List UInt8
  some : bytes ≠ []
  fits : bytes.length ≤ cmdbufMaxBytes

/-- `total_segs`. -/
def Frame.segs (f : Frame) : Nat := segsOf f.bytes.length

/-- A round of the loop in `invalidate_flush`. -/
def segment (f : Frame) (seq : Nat) : Msg where
  payload := some ((f.bytes.drop (seq * cmdbufSegBytes)).take cmdbufSegBytes)
  arg1 := seq
  arg2 := f.segs
  arg3 := f.bytes.length

/-- The segments that arrive, in the order in which they were sent: `lost i k` says that
segment `k` of frame `i` does not. -/
def arrivals (frames : List Frame) (lost : Nat → Nat → Bool) : List (Frame × Nat) :=
  frames.zipIdx.flatMap fun (f, i) =>
    ((List.range f.segs).filter fun k => !lost i k).map fun k => (f, k)

/-- What is delivered after each segment that arrives. -/
def deliveries (arrived : List (Frame × Nat)) : List (Option (List UInt8)) :=
  (Lib.answers cmdbufReasmIngest {} (arrived.map fun (f, k) => segment f k)).1

end MainDob.Ui
