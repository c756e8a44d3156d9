/-
Purpose: The list of virtual regions of an address space, as kernel/mm/vregion.c keeps it:
  kmalloc'd nodes with successor and predecessor pointers, the counters of the list, and the walks
  that search it.
Trusted boundary: kcalloc is a choice of the environment: it returns a node
  that is not allocated, or fails; a walk may visit each allocated node once
Main exports: add32, sub32, mul32
-/
import Mathlib.Algebra.Ring.Nat
import Mathlib.Logic.Function.Basic
import MainDob.Lib.Runs

namespace MainDob.Kernel.Regions

open Lib

def pageSize : Nat := 4096

/-- The number of values of a `uint32_t`. -/
def wordSize : Nat := 4294967296

/-- Addition of two `uint32_t`. -/
def add32 (a b : Nat) : Nat := (a + b) % wordSize

/-- Subtraction of two `uint32_t`. -/
def sub32 (a b : Nat) : Nat := (a + (wordSize - b % wordSize)) % wordSize

/-- Multiplication of two `uint32_t`. -/
def mul32 (a b : Nat) : Nat := a * b % wordSize

/-- `ALIGN_DOWN(addr, PAGE_SIZE)`. -/
def alignDown (addr : Nat) : Nat := addr / pageSize * pageSize

/-- `ALIGN_UP(addr, PAGE_SIZE)`. -/
def alignUp (addr : Nat) : Nat := alignDown (add32 addr (pageSize - 1))

/-- `VREG_READ | VREG_WRITE | VREG_USER`. -/
def vregUserRw : Nat := 11

def vregHeap : Nat := 1024

def vregMmap : Nat := 4096

def vregShared : Nat := 8192

def vregDevice : Nat := 32768

def vregFixed : Nat := 131072

/-- A `vregion_t`; a pointer is the address of a node, `none` is `NULL`. -/
@[ext] structure Vregion where
  base : Nat
  pages : Nat
  flags : Nat
  backingId : Int
  committed : Nat
  next : Option Nat
  prev : Option Nat
deriving Repr, DecidableEq, Inhabited

/-- `n->flags & flag`. -/
def Vregion.has (n : Vregion) (flag : Nat) : Bool := n.flags &&& flag != 0

/-- `cur->base + cur->pages * PAGE_SIZE`. -/
def Vregion.fin (n : Vregion) : Nat := add32 n.base (mul32 n.pages pageSize)

/-- A `vregion_list_t`. -/
structure VregionList where
  head : Option Nat
  tail : Option Nat
  count : Nat
  totalPages : Nat
  devicePages : Nat
deriving Repr, DecidableEq

/-- The nodes, which of them are allocated, and the list. -/
structure Space where
  nodes : Nat → Vregion
  live : List Nat
  vl : VregionList

/-- Overwrite a node. -/
def Space.set (s : Space) (p : Nat) (n : Vregion) : Space :=
  { s with nodes := Function.update s.nodes p n }

/-- `vregion_init`. -/
def vregionInit (s : Space) : Space :=
  { s with vl := ⟨none, none, 0, 0, 0⟩ }

/-- Pages of a node that count as device pages. -/
def Vregion.devicePages (n : Vregion) : Nat :=
  if n.has vregDevice then n.pages else 0

/-- `link_between`. -/
def linkBetween (s : Space) (n : Nat) (prev next : Option Nat) : Space :=
  let s := s.set n { s.nodes n with prev := prev, next := next }
  let s :=
    match prev with
    | some p => s.set p { s.nodes p with next := some n }
    | none => { s with vl := { s.vl with head := some n } }
  let s :=
    match next with
    | some q => s.set q { s.nodes q with prev := some n }
    | none => { s with vl := { s.vl with tail := some n } }
  { s with
    vl :=
      { s.vl with
        count := add32 s.vl.count 1
        totalPages := add32 s.vl.totalPages (s.nodes n).pages
        devicePages :=
          if (s.nodes n).has vregDevice then
            add32 s.vl.devicePages (s.nodes n).pages
          else s.vl.devicePages } }

/-- `unlink_node`. -/
def unlinkNode (s : Space) (n : Nat) : Space :=
  let s :=
    match (s.nodes n).prev with
    | some p => s.set p { s.nodes p with next := (s.nodes n).next }
    | none => { s with vl := { s.vl with head := (s.nodes n).next } }
  let s :=
    match (s.nodes n).next with
    | some q => s.set q { s.nodes q with prev := (s.nodes n).prev }
    | none => { s with vl := { s.vl with tail := (s.nodes n).prev } }
  { s with
    vl :=
      { s.vl with
        totalPages := sub32 s.vl.totalPages (s.nodes n).pages
        devicePages :=
          if (s.nodes n).has vregDevice then
            sub32 s.vl.devicePages (s.nodes n).pages
          else s.vl.devicePages
        count := sub32 s.vl.count 1 } }

/-- `make_node`, where kcalloc returned the node `p`. -/
def makeNode (s : Space) (p base pages flags : Nat) (backingId : Int) : Space :=
  { s.set p ⟨base, pages, flags, backingId, 0, none, none⟩ with
    live := p :: s.live }

/-- `kfree` of a node. -/
def freeNode (s : Space) (p : Nat) : Space :=
  { s with live := s.live.erase p }

/-- How many nodes a walk can visit before it would come back to one. -/
def Space.reach (s : Space) : Nat := s.live.length + 1

/-- The loop of `vregion_alloc`: the candidate address and the nodes before and
after it. -/
def allocWalk (nodes : Nat → Vregion) (size maxAddr : Nat) :
    Nat → Nat → Option Nat → Option Nat → Option (Nat × Option Nat × Option Nat)
  | 0, _, _, _ => none
  | _ + 1, cand, prev, none => some (cand, prev, none)
  | fuel + 1, cand, prev, some cur =>
    let curEnd := (nodes cur).fin
    if curEnd ≤ cand then
      allocWalk nodes size maxAddr fuel cand (some cur) (nodes cur).next
    else if add32 cand size ≤ (nodes cur).base ∧ add32 cand size ≤ maxAddr then
      some (cand, prev, some cur)
    else
      allocWalk nodes size maxAddr fuel (alignUp curEnd) (some cur) (nodes cur).next

/-- `vregion_alloc`; `fresh` is what kcalloc returns. -/
def vregionAlloc (s : Space) (pages minAddr maxAddr flags : Nat)
    (backingId : Int) (fresh : Option Nat) : Option (Space × Nat) :=
  if pages = 0 then some (s, 0)
  else
    let size := mul32 pages pageSize
    match allocWalk s.nodes size maxAddr s.reach (alignUp minAddr) none
        s.vl.head with
    | none => none
    | some (cand, prev, cur) =>
      if maxAddr < add32 cand size ∨ add32 cand size < cand then some (s, 0)
      else
        match fresh with
        | none => some (s, 0)
        | some n =>
          some (linkBetween (makeNode s n cand pages flags backingId) n prev cur, cand)

/-- The loop of `vregion_insert`: the nodes before and after the range, or
`none` inside when it overlaps a region. -/
def insertWalk (nodes : Nat → Vregion) (base fin : Nat) :
    Nat → Option Nat → Option Nat → Option (Option (Option Nat × Option Nat))
  | 0, _, _ => none
  | _ + 1, prev, none => some (some (prev, none))
  | fuel + 1, prev, some cur =>
    if (nodes cur).base < fin then
      if base < (nodes cur).fin ∧ (nodes cur).base < fin then some none
      else insertWalk nodes base fin fuel (some cur) (nodes cur).next
    else some (some (prev, some cur))

/-- `vregion_insert`; the result is the new node or `NULL`. -/
def vregionInsert (s : Space) (addr pages flags : Nat) (fresh : Option Nat) :
    Option (Space × Option Nat) :=
  let base := alignDown addr
  let fin := add32 base (mul32 pages pageSize)
  if fin < base then some (s, none)
  else
    match insertWalk s.nodes base fin s.reach none s.vl.head with
    | none => none
    | some none => some (s, none)
    | some (some (prev, cur)) =>
      match fresh with
      | none => some (s, none)
      | some n =>
        some (linkBetween (makeNode s n base pages flags (-1)) n prev cur, some n)

/-- The loop of `vregion_find`. -/
def findWalk (nodes : Nat → Vregion) (addr : Nat) : Nat → Option Nat → Option (Option Nat)
  | 0, _ => none
  | _ + 1, none => some none
  | fuel + 1, some cur =>
    if addr < (nodes cur).base then some none
    else if addr < (nodes cur).fin then some (some cur)
    else findWalk nodes addr fuel (nodes cur).next

/-- `vregion_find`. -/
def vregionFind (s : Space) (addr : Nat) : Option (Option Nat) :=
  findWalk s.nodes addr s.reach s.vl.head

/-- The loop of `vregion_find_exact`. -/
def findExactWalk (nodes : Nat → Vregion) (base : Nat) : Nat → Option Nat → Option (Option Nat)
  | 0, _ => none
  | _ + 1, none => some none
  | fuel + 1, some cur =>
    if (nodes cur).base = base then some (some cur)
    else if base < (nodes cur).base then some none
    else findExactWalk nodes base fuel (nodes cur).next

/-- `vregion_find_exact`. -/
def vregionFindExact (s : Space) (base : Nat) : Option (Option Nat) :=
  findExactWalk s.nodes base s.reach s.vl.head

/-- `vregion_free`: the pages of the freed region, 0 when there is none. -/
def vregionFree (s : Space) (base : Nat) : Option (Space × Nat) :=
  match vregionFindExact s base with
  | none => none
  | some none => some (s, 0)
  | some (some n) => some (freeNode (unlinkNode s n) n, (s.nodes n).pages)

/-- The part of `vregion_resize` after the checks. -/
def resizeNode (s : Space) (n newPages : Nat) : Space :=
  let r := s.nodes n
  let delta := sub32 newPages r.pages
  { s.set n
      { r with
        committed := if newPages < r.committed then newPages else r.committed
        pages := newPages } with
    vl :=
      { s.vl with
        totalPages := add32 s.vl.totalPages delta
        devicePages :=
          if r.has vregDevice then add32 s.vl.devicePages delta
          else s.vl.devicePages } }

/-- The region grows past the base of the node after it. -/
def invades (s : Space) (n base newPages : Nat) : Bool :=
  match (s.nodes n).next with
  | none => false
  | some q =>
    decide ((s.nodes n).pages < newPages) &&
      decide ((s.nodes q).base < add32 base (mul32 newPages pageSize))

/-- `vregion_resize`. -/
def vregionResize (s : Space) (base newPages : Nat) : Option (Space × Bool) :=
  match vregionFindExact s base with
  | none => none
  | some none => some (s, false)
  | some (some n) =>
    if newPages = 0 then some (s, false)
    else if (wordSize - 1 - base) / pageSize < newPages then some (s, false)
    else if invades s n base newPages then some (s, false)
    else some (resizeNode s n newPages, true)

/-- The calls that change the list, with what kcalloc returns in them. -/
inductive Call where
  | alloc (pages minAddr maxAddr flags : Nat) (backingId : Int)
      (fresh : Option Nat)
  | insert (base pages flags : Nat) (fresh : Option Nat)
  | free (base : Nat)
  | resize (base newPages : Nat)
deriving Repr, DecidableEq

/-- The state a call leaves. -/
def exec (s : Space) : Call → Option Space
  | .alloc pages minAddr maxAddr flags backingId fresh =>
    (vregionAlloc s pages minAddr maxAddr flags backingId fresh).map Prod.fst
  | .insert base pages flags fresh =>
    (vregionInsert s base pages flags fresh).map Prod.fst
  | .free base => (vregionFree s base).map Prod.fst
  | .resize base newPages => (vregionResize s base newPages).map Prod.fst

/-- What kcalloc returns in a call. -/
def Call.fresh : Call → Option Nat
  | .alloc _ _ _ _ _ fresh => fresh
  | .insert _ _ _ fresh => fresh
  | .free _ => none
  | .resize _ _ => none

/-- A call takes the state to the next one; kcalloc never returns a node that
is allocated. -/
def step (s : Space) (call : Call) (s' : Space) : Prop :=
  exec s call = some s' ∧ ∀ p, call.fresh = some p → p ∉ s.live

/-- An empty list, with no node allocated. -/
def initial : Space :=
  vregionInit ⟨fun _ => default, [], ⟨none, none, 0, 0, 0⟩⟩

end MainDob.Kernel.Regions
