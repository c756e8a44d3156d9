/-
Purpose: Shared memory segments of kernel/mm/shm.c: a counted array of frames
  under an id of the handle table, mapped into a process as a region with the
  flag VREG_SHARED and the id as its backing.
Trusted boundary: a call is one step; kcalloc and pmm_alloc_frame are choices
  of the environment; a process is known by its pid, below MAX_PROCESSES
Main exports: Segment, State, refcountInc
-/
import MainDob.Kernel.HandleTable
import MainDob.Kernel.Vm

namespace MainDob.Kernel.Shm

open Lib
open Regions hiding Call exec step initial
open UserMem hiding Call exec step
open HandleTable hiding Call exec step initial wordSize

def shmMax : Nat := 128

def shmMaxPages : Nat := 1024

def shmUserBase : Nat := 0x60000000

def shmUserLimit : Nat := 0x70000000

def refcountSaturated : Nat := 0xC0000000

def maxProcesses : Nat := 65535

/-- A `shm_segment_t`; `pages` is the number of its frames. -/
structure Segment where
  frames : List Nat
  refcount : Nat
  creator : Nat
deriving Repr, DecidableEq, Inhabited

/-- The processes, `s_shm_table`, the segments by their address, and which of
them are allocated. -/
structure State where
  vm : Vm
  table : Table Nat
  segs : Nat → Segment
  live : List Nat

/-- Overwrite a segment. -/
def State.setSeg (s : State) (g : Nat) (seg : Segment) : State :=
  { s with segs := Function.update s.segs g seg }

/-- `refcount_inc`. -/
def refcountInc (value : Nat) : Nat :=
  if refcountSaturated ≤ value then value else value + 1

/-- `refcount_dec`: the new value, and whether it reached 0. -/
def refcountDec (value : Nat) : Nat × Bool :=
  if refcountSaturated ≤ value then (value, false)
  else if value = 0 then (value, false)
  else (value - 1, decide (value = 1))

/-- The loop of `segment_build`: the frames it got so far, and whether it got
all. -/
def takeFrames : Nat → List Nat → Vm → List Nat → Option (Vm × List Nat × Bool)
  | 0, _, v, got => some (v, got, true)
  | _ + 1, [], v, got => some (v, got, false)
  | left + 1, frame :: grants, v, got =>
    if v.free frame = true ∧ frame ≠ 0 then
      takeFrames left grants { v with free := Function.update v.free frame false } (got ++ [frame])
    else none

/-- `segment_build`; `fresh` and `array` are what the two kcalloc return. -/
def segmentBuild (s : State) (pages creator : Nat) (fresh : Option Nat)
    (array : Bool) (grants : List Nat) : Option (State × Option Nat) :=
  match fresh with
  | none => some (s, none)
  | some g =>
    if array then
      (takeFrames pages grants s.vm []).map fun (vm, got, all) =>
        if all then
          ({ s.setSeg g ⟨got, 1, creator⟩ with
            vm := vm, live := g :: s.live }, some g)
        else ({ s with vm := got.foldl pmmFreeFrame vm }, none)
    else some (s, none)

/-- `segment_release`. -/
def segmentRelease (s : State) (g : Nat) : State :=
  let (value, last) := refcountDec (s.segs g).refcount
  let s := s.setSeg g { s.segs g with refcount := value }
  if last then
    { s with
      vm := (s.segs g).frames.foldl pmmFreeFrame s.vm
      live := s.live.erase g }
  else s

/-- The loop of `map_into`, from the page `i` on. -/
def mapFrames (pid vaddr : Nat) : Nat → List Nat → Vm → Vm
  | _, [], v => v
  | i, frame :: frames, v =>
    mapFrames pid vaddr (i + 1) frames (mapPage v pid (pageAt vaddr i) frame)

/-- `map_into`: the address, 0 when there is no room. -/
def mapInto (s : State) (g pid id : Nat) (node : Option Nat) : Option (State × Nat) :=
  let seg := s.segs g
  (vregionAlloc (s.vm.procs pid).space seg.frames.length shmUserBase
    shmUserLimit (vregShared ||| vregUserRw) id node).bind fun (space, vaddr) =>
        let vm := s.vm.setSpace pid space
        if vaddr = 0 then some ({ s with vm := vm }, 0)
        else
          let vm := mapFrames pid vaddr 0 seg.frames vm
          (commit (vm.procs pid).space vaddr seg.frames.length).map
            fun space => ({ s with vm := vm.setSpace pid space }, vaddr)

/-- `unmap_from`. -/
def unmapFrom (s : State) (g pid vaddr : Nat) : Option State :=
  let vm := (List.range (s.segs g).frames.length).foldl
    (fun v i => unmapPage v pid (pageAt vaddr i)) s.vm
  (vregionFree (vm.procs pid).space vaddr).map fun (space, _) =>
    { s with vm := vm.setSpace pid space }

/-- The loop of `find_mapping` and of `shm_cleanup_process`: the first node of
the list that passes the test. -/
def mappingWalk (nodes : Nat → Vregion) (test : Vregion → Bool) :
    Nat → Option Nat → Option (Option Nat)
  | 0, _ => none
  | _ + 1, none => some none
  | fuel + 1, some cur =>
    if test (nodes cur) then some (some cur)
    else mappingWalk nodes test fuel (nodes cur).next

/-- The region maps the segment with the id. -/
def maps (id : Nat) (r : Vregion) : Bool :=
  r.has vregShared && r.backingId == (id : Int)

/-- `find_mapping`. -/
def findMapping (space : Space) (id : Nat) : Option (Option Nat) :=
  mappingWalk space.nodes (maps id) space.reach space.vl.head

/-- The search of `shm_cleanup_process`. -/
def findShared (space : Space) : Option (Option Nat) :=
  mappingWalk space.nodes (fun r => r.has vregShared) space.reach space.vl.head

/-- `shm_create`: the id and the address in the creator, or a failure. -/
def shmCreate (s : State) (pid size : Nat) (fresh : Option Nat) (array : Bool)
    (grants : List Nat) (node : Option Nat) : Option (State × Option (Nat × Nat)) :=
  if size = 0 then some (s, none)
  else
    let pages := alignUp size / pageSize
    if shmMaxPages < pages then some (s, none)
    else
      (segmentBuild s pages pid fresh array grants).bind fun (s, built) =>
        match built with
        | none => some (s, none)
        | some g =>
          let (table, ref) := handleTableInsert s.table g
          let s := { s with table := table }
          if ref.id = 0 then some (segmentRelease s g, none)
          else
            let s := s.setSeg g { s.segs g with refcount := refcountInc (s.segs g).refcount }
            (mapInto s g pid ref.id node).map fun (s, vaddr) =>
              if vaddr = 0 then
                let s := s.setSeg g { s.segs g with
                    refcount := (refcountDec (s.segs g).refcount).1 }
                let s :=
                  { s with table := (handleTableRemove s.table ref.id).1 }
                (segmentRelease s g, none)
              else (s, some (ref.id, vaddr))

/-- `shm_map`: the address, or a failure. -/
def shmMap (s : State) (pid id : Nat) (node : Option Nat) : Option (State × Option Nat) :=
  match handleTableGet s.table id with
  | none => some (s, none)
  | some g =>
    (findMapping (s.vm.procs pid).space id).bind fun found =>
      if found.isSome then some (s, none)
      else
        let s := s.setSeg g { s.segs g with refcount := refcountInc (s.segs g).refcount }
        (mapInto s g pid id node).map fun (s, vaddr) =>
          if vaddr = 0 then
            (s.setSeg g { s.segs g with
                refcount := (refcountDec (s.segs g).refcount).1 }, none)
          else (s, some vaddr)

/-- `shm_unmap`: whether it succeeded. -/
def shmUnmap (s : State) (pid id : Nat) : Option (State × Bool) :=
  (findMapping (s.vm.procs pid).space id).bind fun found =>
    match handleTableGet s.table id, found with
    | some g, some r =>
      (unmapFrom s g pid ((s.vm.procs pid).space.nodes r).base).map
        fun s => (segmentRelease s g, true)
    | _, _ => some (s, false)

/-- The loop of `shm_cleanup_process`. -/
def cleanupLoop (pid : Nat) : Nat → State → Option State
  | 0, _ => none
  | fuel + 1, s =>
    (findShared (s.vm.procs pid).space).bind fun found =>
      match found with
      | none => some s
      | some c =>
        let backing := ((s.vm.procs pid).space.nodes c).backingId
        if backing < 0 then some s
        else
          (shmUnmap s pid backing.toNat).bind fun (s, _) =>
            cleanupLoop pid fuel s

/-- `shm_cleanup_process`; every turn of the loop is to free a node. -/
def shmCleanupProcess (s : State) (pid : Nat) : Option State :=
  cleanupLoop pid (s.vm.procs pid).space.reach s

/-- The operations, with what the allocators return in them. -/
inductive Call where
  | create (pid size : Nat) (fresh : Option Nat) (array : Bool)
      (grants : List Nat) (node : Option Nat)
  | map (pid id : Nat) (node : Option Nat)
  | unmap (pid id : Nat)
  | cleanup (pid : Nat)
  | munmap (pid virt pages : Nat)
deriving Repr, DecidableEq

/-- The state an operation leaves. -/
def exec (s : State) : Call → Option State
  | .create pid size fresh array grants node =>
    (shmCreate s pid size fresh array grants node).map Prod.fst
  | .map pid id node => (shmMap s pid id node).map Prod.fst
  | .unmap pid id => (shmUnmap s pid id).map Prod.fst
  | .cleanup pid => shmCleanupProcess s pid
  | .munmap pid virt pages =>
    (sysMunmap s.vm pid virt pages).map fun result =>
      { s with vm := result.1 }

/-- The process of an operation. -/
def Call.pid : Call → Nat
  | .create pid .. => pid
  | .map pid .. => pid
  | .unmap pid _ => pid
  | .cleanup pid => pid
  | .munmap pid .. => pid

/-- The node kcalloc returns for a region. -/
def Call.node : Call → Option Nat
  | .create _ _ _ _ _ node => node
  | .map _ _ node => node
  | _ => none

/-- The segment kcalloc returns. -/
def Call.segment : Call → Option Nat
  | .create _ _ fresh _ _ _ => fresh
  | _ => none

/-- The arguments are what 32-bit registers can hold. -/
def Call.InRegisters : Call → Prop
  | .create _ size _ _ _ _ => size < wordSize
  | .map _ id _ => id < wordSize
  | .unmap _ id => id < wordSize
  | .cleanup _ => True
  | .munmap _ virt pages => virt < wordSize ∧ pages < wordSize

instance : (call : Call) → Decidable call.InRegisters
  | .create _ size _ _ _ _ => inferInstanceAs (Decidable (size < wordSize))
  | .map _ id _ => inferInstanceAs (Decidable (id < wordSize))
  | .unmap _ id => inferInstanceAs (Decidable (id < wordSize))
  | .cleanup _ => inferInstanceAs (Decidable True)
  | .munmap .. => inferInstanceAs (Decidable (_ ∧ _))

/-- An operation takes a state to the next one; kcalloc never returns what is
allocated. -/
def step (s : State) (call : Call) (s' : State) : Prop :=
  exec s call = some s' ∧ call.InRegisters ∧ call.pid < maxProcesses ∧ (∀ p, call.node = some p →
    p ∉ (s.vm.procs call.pid).space.live) ∧ ∀ g, call.segment = some g → g ∉ s.live

/-- The table of `shm_init`, over any processes. -/
def initial (vm : Vm) : State :=
  ⟨vm, handleTableInit Nat shmMax .lifo, fun _ => default, []⟩

end MainDob.Kernel.Shm
