/-
Purpose: The system calls that change user mappings, of kernel/syscall/syscall.c:
  sys_mmap, sys_munmap and sys_brk, with unmap_user_range, over the region list
  of each process, its page table and the frame allocator.
Trusted boundary: a system call holds the process's vm_lock, so it is one step;
  a page table is the map it encodes, the entries of the kernel half are shared
  by all directories, and the frames that hold page tables and the direct map
  of all frames are left out; pmm_alloc_frame returns a free frame or fails, as
  the environment chooses
Main exports: userSpaceLimit, Proc, Event
-/
import MainDob.Kernel.Vregion

namespace MainDob.Kernel.UserMem

open Function (update)
open Lib
open Regions

def userSpaceLimit : Nat := 0xC0000000

/-- What the calls use of a `process_t`: `vm_regions`, the user half of the page
directory, and the break. -/
structure Proc where
  space : Space
  pte : Nat → Option Nat
  brkStart : Nat
  brkCurrent : Nat
  heapRegion : Option Nat

/-- What the calls did to pages and frames. -/
inductive Event where
  | mapped (pid page frame : Nat)
  /-- The entry of the page was cleared; it mapped `frame`. -/
  | unmapped (pid page : Nat) (frame : Option Nat)
  /-- The frame was given to the allocator; `again` when it was free already. -/
  | freed (frame : Nat) (again : Bool)
deriving Repr, DecidableEq

/-- The processes, the kernel half of the page directories, and which frames are
free.  `log` is kept for the statements. -/
structure Vm where
  procs : Nat → Proc
  kernel : Nat → Option Nat
  free : Nat → Bool
  log : List Event

/-- `paging_get_physical`: the frame a page is mapped to. -/
def lookup (v : Vm) (pid page : Nat) : Option Nat :=
  if page < userSpaceLimit then (v.procs pid).pte page else v.kernel page

/-- Overwrite a process. -/
def Vm.setProc (v : Vm) (pid : Nat) (proc : Proc) : Vm :=
  { v with procs := update v.procs pid proc }

/-- Overwrite the region list of a process. -/
def Vm.setSpace (v : Vm) (pid : Nat) (space : Space) : Vm :=
  v.setProc pid { v.procs pid with space := space }

/-- Overwrite the page table entry of a page. -/
def Vm.setEntry (v : Vm) (pid page : Nat) (entry : Option Nat) : Vm :=
  if page < userSpaceLimit then
    v.setProc pid { v.procs pid with
        pte := update (v.procs pid).pte page entry }
  else { v with kernel := update v.kernel page entry }

/-- Record an event. -/
def Vm.note (v : Vm) (event : Event) : Vm := { v with log := event :: v.log }

/-- `paging_map_page`. -/
def mapPage (v : Vm) (pid page frame : Nat) : Vm :=
  (v.setEntry pid page (some frame)).note (.mapped pid page frame)

/-- `paging_unmap_page`. -/
def unmapPage (v : Vm) (pid page : Nat) : Vm :=
  (v.setEntry pid page none).note (.unmapped pid page (lookup v pid page))

/-- `pmm_free_frame` of what `paging_get_physical` found; 0 is no frame. -/
def pmmFreeFrame (v : Vm) (frame : Nat) : Vm :=
  if frame = 0 then v
  else
    { v with free := update v.free frame true }.note
      (.freed frame (v.free frame))

/-- `base + i * PAGE_SIZE`. -/
def pageAt (base i : Nat) : Nat := add32 base (mul32 i pageSize)

/-- The body of the inner loop of `unmap_user_range`, with the frames found so
far. -/
def unmapOne (pid base : Nat) (freePhys : Bool) (found : Vm × List Nat) (i : Nat) : Vm × List Nat :=
  let phys :=
    if freePhys then (lookup found.1 pid (pageAt base i)).toList else []
  (unmapPage found.1 pid (pageAt base i), found.2 ++ phys)

/-- One block of `unmap_user_range`: unmap `n` pages, then free their frames. -/
def unmapBlock (v : Vm) (pid base n : Nat) (freePhys : Bool) : Vm :=
  let (v, phys) := (List.range n).foldl (unmapOne pid base freePhys) (v, [])
  phys.foldl pmmFreeFrame v

/-- The loop of `unmap_user_range`, from the page `done` on. -/
def unmapLoop (pid virt pages : Nat) (freePhys : Bool) : Nat → Nat → Vm → Vm
  | 0, _, v => v
  | turns + 1, done, v =>
    if pages ≤ done then v
    else
      let n := min (pages - done) 64
      unmapLoop pid virt pages freePhys turns (done + n)
        (unmapBlock v pid (pageAt virt done) n freePhys)

/-- `unmap_user_range`. -/
def unmapUserRange (v : Vm) (pid virt pages : Nat) (freePhys : Bool) : Vm :=
  unmapLoop pid virt pages freePhys pages 0 v

/-- The mapping loop of `sys_mmap` and `sys_brk` from the page `i` on: the
frames `grants` are what `pmm_alloc_frame` returns, and then it fails.  The
result says how many pages were mapped, and whether all were. -/
def mapRange (pid virt : Nat) : Nat → Nat → List Nat → Vm → Option (Vm × Nat × Bool)
  | 0, i, _, v => some (v, i, true)
  | _ + 1, i, [], v => some (v, i, false)
  | left + 1, i, frame :: grants, v =>
    if v.free frame = true ∧ frame ≠ 0 then
      let v := { v with free := update v.free frame false }
      mapRange pid virt left (i + 1) grants (mapPage v pid (pageAt virt i) frame)
    else none

/-- The region part of `sys_mmap`: the address, 0 when there is none. -/
def mmapRegion (space : Space) (virt pages : Nat) (fresh : Option Nat) : Option (Space × Nat) :=
  if virt = 0 then
    vregionAlloc space pages 0x40000000 0x5FFFFFFF (vregMmap ||| vregUserRw) (-1) fresh
  else if virt % pageSize ≠ 0 then some (space, 0)
  else
    (vregionInsert space virt pages (vregMmap ||| vregUserRw) fresh).map
      fun (space, node) => (space, if node.isSome then virt else 0)

/-- `r->committed = pages` for the region at `virt`. -/
def commit (space : Space) (virt pages : Nat) : Option Space :=
  (vregionFindExact space virt).map fun found =>
    match found with
    | none => space
    | some r => space.set r { space.nodes r with committed := pages }

/-- `sys_mmap`; `fresh` is the node kcalloc returns, `grants` the frames
pmm_alloc_frame returns. -/
def sysMmap (v : Vm) (pid virt pages : Nat) (fresh : Option Nat)
    (grants : List Nat) : Option (Vm × Nat) :=
  if pages = 0 ∨ 4096 < pages then some (v, 0)
  else
    (mmapRegion (v.procs pid).space virt pages fresh).bind fun (space, virt) =>
      let v := v.setSpace pid space
      if virt = 0 then some (v, 0)
      else
        (mapRange pid virt pages 0 grants v).bind fun (v, mapped, all) =>
          if all then
            (commit (v.procs pid).space virt pages).map fun space =>
              (v.setSpace pid space, virt)
          else
            let v := unmapUserRange v pid virt mapped true
            (vregionFree (v.procs pid).space virt).map fun (space, _) =>
              (v.setSpace pid space, 0)

/-- `sys_munmap`: whether it succeeded. -/
def sysMunmap (v : Vm) (pid virt pages : Nat) : Option (Vm × Bool) :=
  if pages = 0 ∨ virt % pageSize ≠ 0 then some (v, false)
  else
    (vregionFindExact (v.procs pid).space virt).bind fun found =>
      match found with
      | none => some (v, false)
      | some r =>
        if ((v.procs pid).space.nodes r).has vregFixed then some (v, false)
        else
          let freePhys := !((v.procs pid).space.nodes r).has vregDevice
          let v := unmapUserRange v pid virt pages freePhys
          (vregionFree (v.procs pid).space virt).map fun (space, _) =>
            (v.setSpace pid space, true)

/-- The break a process starts with when it has none. -/
def lazyBrk (proc : Proc) : Proc :=
  if proc.brkStart = 0 then
    { proc with brkStart := 0x10000000, brkCurrent := 0x10000000 }
  else proc

/-- The part of `sys_brk` that looks for the heap region, and makes an empty one
where there is none. -/
def heapLookup (proc : Proc) (fresh : Option Nat) : Option Proc :=
  match proc.heapRegion with
  | some _ => some proc
  | none =>
    (vregionFindExact proc.space proc.brkStart).bind fun found =>
      match found with
      | some r => some { proc with heapRegion := some r }
      | none =>
        (vregionInsert proc.space proc.brkStart 0 (vregHeap ||| vregUserRw)
          fresh).map fun (space, node) =>
            { proc with space := space, heapRegion := node }

/-- `hr->next != NULL && brk_start + new_pages * PAGE_SIZE > hr->next->base`. -/
def brkInvades (proc : Proc) (hr newPages : Nat) : Bool :=
  match (proc.space.nodes hr).next with
  | none => false
  | some q => decide ((proc.space.nodes q).base <
      add32 proc.brkStart (mul32 newPages pageSize))

/-- `hr->pages = pages; hr->committed = pages`. -/
def setHeapPages (proc : Proc) (hr pages : Nat) : Proc :=
  { proc with
    space := proc.space.set hr
      { proc.space.nodes hr with pages := pages, committed := pages } }

/-- The part of `sys_brk` after the checks; `none` inside is a failure. -/
def moveBrk (v : Vm) (pid hr newBrk : Nat) (grants : List Nat) : Option (Vm × Bool) :=
  let proc := v.procs pid
  let oldPage := alignUp proc.brkCurrent
  let newPage := alignUp newBrk
  let newPages := sub32 newPage proc.brkStart / pageSize
  let finish (v : Vm) (proc : Proc) : Vm :=
    v.setProc pid { proc with brkCurrent := newBrk }
  if oldPage < newPage then
    if brkInvades proc hr newPages then some (v, false)
    else
      (mapRange pid oldPage ((newPage - oldPage) / pageSize) 0 grants v).map fun (v, mapped, all) =>
          if all then
            (finish v (setHeapPages (v.procs pid) hr newPages), true)
          else (unmapUserRange v pid oldPage mapped true, false)
  else if newPage < oldPage then
    let v := unmapUserRange v pid newPage ((oldPage - newPage) / pageSize) true
    some (finish v (setHeapPages (v.procs pid) hr newPages), true)
  else some (finish v proc, true)

/-- `sys_brk`: the break it returns, or -1. -/
def sysBrk (v : Vm) (pid newBrk : Nat) (fresh : Option Nat)
    (grants : List Nat) : Option (Vm × Int) :=
  if pid = 0 then some (v, -1)
  else
    (heapLookup (lazyBrk (v.procs pid)) fresh).bind fun proc =>
      let v := v.setProc pid proc
      if newBrk = 0 then some (v, proc.brkCurrent)
      else
        match proc.heapRegion with
        | none => some (v, -1)
        | some hr =>
          if 0x40000000 < newBrk then some (v, -1)
          else if newBrk < proc.brkStart then some (v, proc.brkCurrent)
          else
            (moveBrk v pid hr newBrk grants).map fun (v, ok) =>
              (v, if ok then (newBrk : Int) else -1)

/-- The system calls, by the process that makes them. -/
inductive Call where
  | mmap (pid virt pages : Nat) (fresh : Option Nat) (grants : List Nat)
  | munmap (pid virt pages : Nat)
  | brk (pid newBrk : Nat) (fresh : Option Nat) (grants : List Nat)
deriving Repr, DecidableEq

/-- The state a call leaves. -/
def exec (v : Vm) : Call → Option Vm
  | .mmap pid virt pages fresh grants =>
    (sysMmap v pid virt pages fresh grants).map Prod.fst
  | .munmap pid virt pages => (sysMunmap v pid virt pages).map Prod.fst
  | .brk pid newBrk fresh grants =>
    (sysBrk v pid newBrk fresh grants).map Prod.fst

/-- The arguments are what 32-bit registers can hold. -/
def Call.InRegisters : Call → Prop
  | .mmap _ virt pages _ _ => virt < wordSize ∧ pages < wordSize
  | .munmap _ virt pages => virt < wordSize ∧ pages < wordSize
  | .brk _ newBrk _ _ => newBrk < wordSize

instance : (call : Call) → Decidable call.InRegisters
  | .mmap .. => inferInstanceAs (Decidable (_ ∧ _))
  | .munmap .. => inferInstanceAs (Decidable (_ ∧ _))
  | .brk _ newBrk _ _ => inferInstanceAs (Decidable (newBrk < wordSize))

/-- The process that makes a call, and what kcalloc returns in it. -/
def Call.fresh : Call → Nat × Option Nat
  | .mmap pid _ _ fresh _ => (pid, fresh)
  | .munmap pid _ _ => (pid, none)
  | .brk pid _ fresh _ => (pid, fresh)

/-- A call takes a state to the next one; kcalloc returns a node that is not
allocated. -/
def step (v : Vm) (call : Call) (v' : Vm) : Prop :=
  exec v call = some v' ∧ call.InRegisters ∧
    ∀ p, call.fresh.2 = some p → p ∉ (v.procs call.fresh.1).space.live

end MainDob.Kernel.UserMem
