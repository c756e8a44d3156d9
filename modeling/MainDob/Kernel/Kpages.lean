/-
Purpose: The kernel virtual-range allocator of kernel/mm/kheap.c: the bump
  pointer, the stack of single pages, the table of multi-page ranges, and the
  locked sections of kpages_alloc, kpages_free and kva_singles_trim.
Trusted boundary: frames and page tables are outside; whether a taken range
  could be backed is a choice of the environment
Main exports: Range, pagesOf, Pool
-/
import Mathlib.Algebra.Ring.Nat
import Mathlib.Data.List.Perm.Basic
import MainDob.Lib.Runs

namespace MainDob.Kernel.Kpages

open Lib

def pageSize : Nat := 4096

def kheapVbase : Nat := 0xD0000000

def kheapVlimit : Nat := 0xE0000000

def kpStackMax : Nat := 1024

def kpMultiMax : Nat := 128

/-- The number of values of a `uint32_t`. -/
def wordSize : Nat := 2 ^ 32

/-- A run of pages of the kernel heap window: a `kp_multi_t`. -/
structure Range where
  virt : Nat
  pages : Nat
deriving Repr, DecidableEq, Inhabited

/-- The addresses of the pages of a range, in order. -/
def pagesOf (r : Range) : List Nat :=
  (List.range r.pages).map fun i => r.virt + i * pageSize

/-- `virt + count * PAGE_SIZE` in 32-bit arithmetic. -/
def rangeEnd (r : Range) : Nat :=
  (r.virt + r.pages * pageSize) % wordSize

/-- The variables behind `s_kva_lock`.  The head of `stack` is the top of
`s_kp_stack`, and `multi` is `s_kp_multi` up to `s_kp_multi_n`. -/
structure Pool where
  bump : Nat
  stack : List Nat
  multi : List Range
  vaLostPages : Nat
deriving Repr, DecidableEq

/-- The pool at boot. -/
def Pool.initial : Pool :=
  { bump := kheapVbase, stack := [], multi := [], vaLostPages := 0 }

/-- `s_kp_multi[i] = s_kp_multi[--s_kp_multi_n]`: the last entry takes the
place of entry `i`. -/
def swapRemove (multi : List Range) (i : Nat) : List Range :=
  match multi.getLast? with
  | none => []
  | some last => (multi.set i last).dropLast

/-- The loop of `take_virtual_range` over the multi-page table: the first entry
with at least `count` pages gives its front; an exact fit leaves the table. -/
def takeMulti (multi : List Range) (count : Nat) : Option (Nat × List Range) :=
  match multi.findIdx? fun m => m.pages == count || count < m.pages with
  | none => none
  | some i =>
    let entry := multi.getD i default
    if entry.pages == count then
      some (entry.virt, swapRemove multi i)
    else
      some (entry.virt, multi.set i
        { virt := (entry.virt + count * pageSize) % wordSize
          pages := entry.pages - count })

/-- `take_virtual_range`.  The address 0 says that nothing was taken. -/
def takeVirtualRange (pool : Pool) (count : Nat) : Nat × Pool :=
  match (if count = 1 then pool.stack else []) with
  | top :: rest => (top, { pool with stack := rest })
  | [] =>
    match takeMulti pool.multi count with
    | some (virt, multi) => (virt, { pool with multi })
    | none =>
      if rangeEnd ⟨pool.bump, count⟩ > kheapVlimit then
        (0, pool)
      else
        (pool.bump, { pool with bump := rangeEnd ⟨pool.bump, count⟩ })

/-- The test of `merge_with_multi`: `m` ends where `r` starts, or the other way
round. -/
def adjacent (r m : Range) : Bool :=
  rangeEnd m == r.virt || rangeEnd r == m.virt

/-- The range `r` with its neighbour `m` taken in, before or after it. -/
def absorb (r m : Range) : Range :=
  { virt := if rangeEnd m == r.virt then m.virt else r.virt
    pages := (r.pages + m.pages) % wordSize }

/-- `merge_with_multi`: take in the first neighbour of the table and start
again, until no entry is a neighbour.  Every round shortens the table, so its
length bounds the rounds. -/
def mergeRounds : Nat → List Range → Range → Range × List Range
  | 0, multi, r => (r, multi)
  | fuel + 1, multi, r =>
    match multi.findIdx? (adjacent r) with
    | none => (r, multi)
    | some i =>
      mergeRounds fuel (swapRemove multi i) (absorb r (multi.getD i default))

/-- `merge_with_multi` on a whole table. -/
def mergeWithMulti (multi : List Range) (r : Range) : Range × List Range :=
  mergeRounds multi.length multi r

/-- The loop that pushes the pages of a range while the stack has room.  The
second component is what did not fit. -/
def spill (stack : List Nat) (r : Range) : List Nat × Range :=
  let spilled := min r.pages (kpStackMax - stack.length)
  (((pagesOf ⟨r.virt, spilled⟩).map (· % wordSize)).reverse ++ stack,
    { virt := r.virt + spilled * pageSize, pages := r.pages - spilled })

/-- What is left of a returned range when every page of it was kept. -/
def nothingLost : Range := { virt := 0, pages := 0 }

/-- `give_virtual_range`.  The source returns the number of pages lost; the
model returns the pages, whose number is the source's result. -/
def giveVirtualRange (pool : Pool) (r : Range) : Range × Pool :=
  let (r, multi) := mergeWithMulti pool.multi r
  let pool := { pool with multi }
  if rangeEnd r == pool.bump then
    (nothingLost, { pool with bump := r.virt })
  else if r.pages == 1 && pool.stack.length < kpStackMax then
    (nothingLost, { pool with stack := r.virt :: pool.stack })
  else if pool.multi.length < kpMultiMax then
    (nothingLost, { pool with multi := pool.multi ++ [r] })
  else
    let (stack, lost) := spill pool.stack r
    (lost, { pool with
      stack, vaLostPages := (pool.vaLostPages + lost.pages) % wordSize })

/-- One round of `kva_singles_trim`: pop a page and give it back.  `none` when
the stack is empty; the flag is the source's `progress`. -/
def singlesRound (pool : Pool) : Option (Bool × Range × Pool) :=
  match pool.stack with
  | [] => none
  | top :: rest =>
    let (lost, next) := giveVirtualRange { pool with stack := rest } ⟨top, 1⟩
    some (next.stack.length < rest.length + 1, lost, next)

/-! ### Runs of the allocator -/

/-- The pool with two records the code does not keep: the ranges that callers
hold, and the pages that found no place in the free structures. -/
structure Kva where
  pool : Pool
  live : List Range
  lost : List Nat
deriving Repr, DecidableEq

/-- The allocator at boot. -/
def Kva.initial : Kva := { pool := .initial, live := [], lost := [] }

/-- The sections under `s_kva_lock`.  A `kpages_alloc` is a `take`, followed by
an `unback` of the range it took when the frames run out.  A `kpages_free` may
return a part of a range, as `mmio_unmap` does page by page. -/
inductive Action where
  | take (count : Nat)
  | unback (held : Range)
  | free (held : Range) (virt count : Nat)
  | trimRound
deriving Repr, DecidableEq

/-- Give a range back and write down what it lost. -/
def Kva.give (s : Kva) (r : Range) : Kva :=
  let (lost, pool) := giveVirtualRange s.pool r
  { s with pool, lost := pagesOf lost ++ s.lost }

/-- What a caller still holds of `held` once the pages of `part` are returned:
the pages before them and the pages after them. -/
def remainder (held part : Range) : List Range :=
  [{ virt := held.virt, pages := (part.virt - held.virt) / pageSize },
    { virt := part.virt + part.pages * pageSize,
      pages := held.pages - (part.virt - held.virt) / pageSize - part.pages }]
    |>.filter fun r => 0 < r.pages

/-- `part` is a run of pages of `held`. -/
def Within (held part : Range) : Prop :=
  ∃ skip, part.virt = held.virt + skip * pageSize ∧
    skip + part.pages ≤ held.pages

instance (held part : Range) : Decidable (Within held part) :=
  decidable_of_iff (∃ skip < held.pages + 1, part.virt = held.virt + skip * pageSize ∧
      skip + part.pages ≤ held.pages)
    ⟨fun ⟨skip, _, inside⟩ => ⟨skip, inside⟩,
      fun ⟨skip, starts, ends⟩ => ⟨skip, by omega, starts, ends⟩⟩

/-- What a section does.  A `kpages_alloc` of no page returns at once, and so
does a `kpages_free` of no page. -/
def exec (s : Kva) : Action → Option Kva
  | .take count =>
    if count = 0 then none
    else
      let (virt, pool) := takeVirtualRange s.pool count
      if virt = 0 then some { s with pool }
      else some { s with pool, live := ⟨virt, count⟩ :: s.live }
  | .unback held =>
    if held ∈ s.live then
      some (Kva.give { s with live := s.live.erase held } held)
    else none
  | .free held virt count =>
    if held ∈ s.live ∧ count ≠ 0 ∧ Within held ⟨virt, count⟩ then
      some (Kva.give { s with
          live := remainder held ⟨virt, count⟩ ++ s.live.erase held }
        ⟨virt, count⟩)
    else none
  | .trimRound =>
    (singlesRound s.pool).map fun (_, lost, pool) =>
      { s with pool, lost := pagesOf lost ++ s.lost }

/-- `kpages_alloc` when nothing else runs between its sections; `backed` says
that frames were found for every page.  The address 0 says that nothing was
allocated. -/
def kpagesAlloc (s : Kva) (count : Nat) (backed : Bool) : Nat × Kva :=
  if count = 0 then (0, s)
  else
    let (virt, pool) := takeVirtualRange s.pool count
    if virt = 0 then (0, { s with pool })
    else if backed then
      (virt, { s with pool, live := ⟨virt, count⟩ :: s.live })
    else (0, Kva.give { s with pool } ⟨virt, count⟩)

/-- `kpages_free` of a whole range. -/
def kpagesFree (s : Kva) (virt count : Nat) : Kva :=
  if virt = 0 ∨ count = 0 then s
  else Kva.give { s with live := s.live.erase ⟨virt, count⟩ } ⟨virt, count⟩

/-- One section of the allocator. -/
def step (s : Kva) (action : Action) (s' : Kva) : Prop :=
  exec s action = some s'

instance (s : Kva) (action : Action) (s' : Kva) : Decidable (step s action s') :=
  inferInstanceAs (Decidable (exec s action = some s'))

/-! ### What the allocator promises -/

/-- The window from the heap base to the bump pointer is cut into the live
ranges, the stack, the table of ranges and the lost pages, each page once; the
lost pages are the ones counted; and no two live ranges share a page. -/
structure Conserved (s : Kva) : Prop where
  window : ∃ n, s.pool.bump = kheapVbase + n * pageSize ∧ (pagesOf ⟨kheapVbase, n⟩).Perm
      (s.live.flatMap pagesOf ++ s.lost ++ s.pool.stack ++ s.pool.multi.flatMap pagesOf)
  counted : s.pool.vaLostPages = s.lost.length
  disjoint : s.live.Pairwise fun a b => (pagesOf a).Disjoint (pagesOf b)

/-- The byte size of an asked page count is a `uint32_t`. -/
def ByteSized : Action → Prop
  | .take count => count * pageSize < wordSize
  | _ => True

instance : (action : Action) → Decidable (ByteSized action)
  | .take count => inferInstanceAs (Decidable (count * pageSize < wordSize))
  | .unback _ => .isTrue trivial
  | .free _ _ _ => .isTrue trivial
  | .trimRound => .isTrue trivial

/-- The address after an asked range, were it laid at the bump pointer, is a
`uint32_t`. -/
def NoWrap (s : Kva) : Action → Prop
  | .take count => s.pool.bump + count * pageSize < wordSize
  | _ => True

instance (s : Kva) : (action : Action) → Decidable (NoWrap s action)
  | .take count =>
    inferInstanceAs (Decidable (s.pool.bump + count * pageSize < wordSize))
  | .unback _ => .isTrue trivial
  | .free _ _ _ => .isTrue trivial
  | .trimRound => .isTrue trivial

end MainDob.Kernel.Kpages
