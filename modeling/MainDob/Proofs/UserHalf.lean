/-
Purpose: The pages sys_mmap, sys_munmap and sys_brk map and unmap lie in the
  user half, and no frame of the kernel half is mapped, unmapped or freed by
  them, in every run where a range given by the caller ends in the user half.
Main exports: KernelFrame, Event.InUserHalf, user_half
-/
import MainDob.Proofs.UserCalls

namespace MainDob.Kernel.UserMem

open Lib
open Regions
open Option

/-- A frame the kernel half of the page directory maps. -/
def KernelFrame (kernel : Nat → Option Nat) (frame : Nat) : Prop :=
  ∃ page, userSpaceLimit ≤ page ∧ kernel page = some frame

/-- The page of the event is in the user half, and its frame is not one of the
kernel half. -/
def Event.InUserHalf (kernel : Nat → Option Nat) : Event → Prop
  | .mapped _ page frame =>
    page < userSpaceLimit ∧ ¬ KernelFrame kernel frame
  | .unmapped _ page frame => page < userSpaceLimit ∧
      ∀ f, frame = some f → ¬ KernelFrame kernel f
  | .freed frame _ => ¬ KernelFrame kernel frame

/-- The break was not moved yet, or was moved below its cap. -/
def Proc.BrkBelow (proc : Proc) : Prop :=
  proc.brkStart = 0 ∨ proc.brkCurrent = proc.brkStart ∨ proc.brkCurrent ≤ 0x40000000

/-- The user halves and the free frames are apart from the kernel half, which
is still `kernel`; so is what was done. -/
structure Apart (kernel : Nat → Option Nat) (v : Vm) : Prop where
  shared : ∀ page, userSpaceLimit ≤ page → v.kernel page = kernel page
  user : ∀ q page f, page < userSpaceLimit → lookup v q page = some f → ¬ KernelFrame kernel f
  free : ∀ f, v.free f = true → ¬ KernelFrame kernel f
  brk : ∀ q, (v.procs q).BrkBelow
  log : ∀ e ∈ v.log, e.InUserHalf kernel

/-- A state to start from: no frame of the kernel half is free or mapped by a
process, and nothing was done yet. -/
structure Sound (v : Vm) : Prop where
  user : ∀ q page f, page < userSpaceLimit → lookup v q page = some f → ¬ KernelFrame v.kernel f
  free : ∀ f, v.free f = true → ¬ KernelFrame v.kernel f
  brk : ∀ q, (v.procs q).BrkBelow
  log : v.log = []

section Apart

variable {kernel : Nat → Option Nat} {v v' : Vm} {pid virt first last : Nat}
variable {P : Nat → Prop} {freePhys : Bool}

theorem lookup_kernel {q page : Nat} (high : userSpaceLimit ≤ page) :
    lookup v q page = v.kernel page := if_neg (Nat.not_lt.mpr high)

theorem Sound.apart (sound : Sound v) : Apart v.kernel v where
  shared _ _ := rfl
  user := sound.user
  free := sound.free
  brk := sound.brk
  log e member := by
    rw [sound.log] at member
    cases member

theorem SameProcs.brkBelow (same : SameProcs v v') {q : Nat}
    (below : (v.procs q).BrkBelow) : (v'.procs q).BrkBelow := by
  obtain ⟨_, start, current, _⟩ := same q
  unfold Proc.BrkBelow
  rw [start, current]
  exact below

section

variable (apart : Apart kernel v)
include apart

theorem Apart.unmap (unmaps : Unmaps v v' pid P freePhys)
    (below : ∀ page, P page → page < userSpaceLimit) : Apart kernel v' := by
  constructor
  case shared =>
    intro page high
    have outside : ¬ (P page ∧ Sees pid pid page) := fun both =>
      absurd (below page both.1) (Nat.not_lt.mpr high)
    have kept := unmaps.kept pid page outside
    rw [lookup_kernel high, lookup_kernel high] at kept
    rw [kept]
    exact apart.shared page high
  case user =>
    intro q page f low found
    exact apart.user q page f low (unmaps.lookup_some found).2
  case free =>
    intro f free
    rcases (unmaps.freed f).mp free with old | ⟨_, _, page, inside, mapped⟩
    · exact apart.free f old
    · exact apart.user pid page f (below page inside) mapped
  case brk => exact fun q => unmaps.procs.brkBelow (apart.brk q)
  case log =>
    intro e member
    rcases unmaps.log e member with old | ⟨page, frame, inside, rfl, mapped⟩ |
      ⟨page, f, again, inside, rfl, _, mapped⟩
    · exact apart.log e old
    · exact ⟨below page inside, fun f same =>
        apart.user pid page f (below page inside) (mapped f same)⟩
    · exact apart.user pid page f (below page inside) mapped

theorem Apart.map (maps : Maps v v' pid virt first last)
    (below : ∀ i, first ≤ i → i < last → pageAt virt i < userSpaceLimit) : Apart kernel v' := by
  constructor
  case shared =>
    intro page high
    have kept : lookup v' pid page = lookup v pid page := by
      refine maps.kept pid page ?_
      rintro ⟨⟨i, low, bound, rfl⟩, _⟩
      exact absurd (below i low bound) (Nat.not_lt.mpr high)
    rw [lookup_kernel high, lookup_kernel high] at kept
    rw [kept]
    exact apart.shared page high
  case user =>
    intro q page f low found
    by_cases inside : (∃ i, first ≤ i ∧ i < last ∧ page = pageAt virt i) ∧ Sees pid q page
    · obtain ⟨⟨i, start, bound, rfl⟩, sees⟩ := inside
      obtain ⟨_, shown, free, _⟩ := maps.shown q i start bound sees
      rw [shown] at found
      cases found
      exact apart.free f free
    · rw [maps.kept q page inside] at found
      exact apart.user q page f low found
  case free => exact fun f free => apart.free f (maps.free f free)
  case brk => exact fun q => maps.procs.brkBelow (apart.brk q)
  case log =>
    intro e member
    rcases maps.log e member with old | ⟨i, f, low, high, rfl, free⟩
    · exact apart.log e old
    · exact ⟨below i low high, apart.free f free⟩

theorem Apart.setProc {proc : Proc} (same : proc.pte = (v.procs pid).pte) (below : proc.BrkBelow) :
    Apart kernel (v.setProc pid proc) where
  shared := apart.shared
  user q page f low found := by
    rw [setProc_lookup same] at found
    exact apart.user q page f low found
  free := apart.free
  brk q := by
    by_cases self : q = pid
    · subst self
      rw [setProc_self]
      exact below
    · rw [setProc_other self]
      exact apart.brk q
  log := apart.log

theorem Apart.setSpace {space : Space} : Apart kernel (v.setSpace pid space) :=
  apart.setProc rfl (apart.brk pid)

end

theorem pageAt_below {n i : Nat} (ends : virt + n * pageSize ≤ userSpaceLimit) (bound : i < n) :
    pageAt virt i < userSpaceLimit := by
  simp only [pageAt, add32, mul32, wordSize, pageSize, userSpaceLimit] at *
  omega

end Apart

section Calls

variable {kernel : Nat → Option Nat} {v v' : Vm} {pid virt pages : Nat}
variable {fresh : Option Nat} {grants : List Nat}

theorem vregionAlloc_ends {space space' : Space} {base flags : Nat} {backingId : Int}
    (few : pages ≤ 4096) (found : base ≠ 0)
    (result : vregionAlloc space pages 0x40000000 0x5FFFFFFF flags backingId
      fresh = some (space', base)) : base + pages * pageSize ≤ userSpaceLimit := by
  unfold vregionAlloc at result
  dsimp only at result
  split at result
  · cases result
    exact absurd rfl found
  split at result
  · cases result
  next cand prev cur _ =>
    split at result
    · cases result
      exact absurd rfl found
    next fits =>
      cases fresh with
      | none =>
        cases result
        exact absurd rfl found
      | some =>
        cases result
        simp only [add32, mul32, wordSize, pageSize, userSpaceLimit] at *
        omega

theorem mmapRegion_ends {space space' : Space} {base : Nat} (few : pages ≤ 4096) (found : base ≠ 0)
    (result : mmapRegion space virt pages fresh = some (space', base)) :
    base + pages * pageSize ≤ userSpaceLimit ∨ (base = virt ∧ virt ≠ 0) := by
  unfold mmapRegion at result
  split at result
  · exact .inl (vregionAlloc_ends few found result)
  next fixed =>
    split at result
    · cases result
      exact absurd rfl found
    obtain ⟨⟨_, node⟩, _, equal⟩ := map_eq_some_iff.mp result
    cases node with
    | none =>
      cases equal
      exact absurd rfl found
    | some =>
      cases equal
      exact .inr ⟨rfl, fixed⟩

/-- A range the caller gives ends in the user half: the pages a fixed-address
mmap gets frames for, and the pages a munmap names at a region it accepts. -/
def EndsBelow (v : Vm) : Call → Prop
  | .mmap pid virt pages fresh grants =>
    virt ≠ 0 →
      0 < pages → pages ≤ 4096 → (∃ space, mmapRegion (v.procs pid).space virt pages fresh =
        some (space, virt)) → virt + min pages grants.length * pageSize ≤ userSpaceLimit
  | .munmap pid virt pages =>
    pages ≠ 0 → virt % pageSize = 0 → (∃ r, vregionFindExact (v.procs pid).space virt = some
      (some r) ∧ ((v.procs pid).space.nodes r).has vregFixed = false) →
      virt + pages * pageSize ≤ userSpaceLimit
  | .brk .. => True

theorem Apart.sysMmap (apart : Apart kernel v) {addr : Nat}
    (ends : EndsBelow v (.mmap pid virt pages fresh grants))
    (result : sysMmap v pid virt pages fresh grants = some (v', addr)) : Apart kernel v' := by
  rcases sysMmap_cases result with ⟨_, rfl, _⟩ |
    ⟨some_, few, space, base, region, ⟨_, rfl, _⟩ | ⟨found, x, mapped, all, mapping, undone⟩⟩
  · exact apart
  · exact apart.setSpace
  obtain ⟨maps, _, count, _, _⟩ := mapRange_spec mapping
  have room : base + mapped * pageSize ≤ userSpaceLimit := by
    rw [zero_add] at count
    rw [count]
    rcases mmapRegion_ends few found region with window | ⟨rfl, fixed⟩
    · refine le_trans ?_ window
      exact Nat.add_le_add_left (Nat.mul_le_mul_right _ (Nat.min_le_left _ _)) _
    · exact ends fixed some_ few ⟨space, region⟩
  have mappedApart : Apart kernel x :=
    apart.setSpace.map maps fun i _ bound => pageAt_below room bound
  rcases undone with ⟨_, _, space', _, rfl⟩ | ⟨_, _, space', n, _, rfl⟩
  · exact mappedApart.setSpace
  refine Apart.setSpace (mappedApart.unmap (unmapUserRange_spec x pid base mapped true) ?_)
  rintro _ ⟨_, bound, rfl⟩
  exact pageAt_below room bound

theorem Apart.sysMunmap (apart : Apart kernel v) {ok : Bool}
    (ends : EndsBelow v (.munmap pid virt pages))
    (result : sysMunmap v pid virt pages = some (v', ok)) : Apart kernel v' := by
  rcases sysMunmap_cases result with ⟨_, rfl⟩ |
    ⟨_, some_, aligned, r, search, notFixed, space, n, _, rfl⟩
  · exact apart
  have room := ends some_ aligned ⟨r, search, notFixed⟩
  refine Apart.setSpace (apart.unmap (unmapUserRange_spec _ _ _ _ _) ?_)
  rintro _ ⟨_, bound, rfl⟩
  exact pageAt_below room bound

theorem lazyBrk_below {proc : Proc} (below : proc.BrkBelow) :
    (lazyBrk proc).brkCurrent = (lazyBrk proc).brkStart ∨
      (lazyBrk proc).brkCurrent ≤ 0x40000000 := by
  unfold lazyBrk
  split
  · exact .inl rfl
  · next notZero => exact below.resolve_left notZero

theorem alignUp_le {addr : Nat} (capped : addr ≤ 0x40000000) : alignUp addr ≤ 0x40000000 := by
  simp only [alignUp, alignDown, add32, pageSize, wordSize]
  omega

theorem between_below {low high : Nat} (capped : high ≤ 0x40000000) (less : low < high) :
    low + (high - low) / pageSize * pageSize ≤ userSpaceLimit := by
  simp only [pageSize, userSpaceLimit]
  omega

theorem Apart.moveBrk (apart : Apart kernel v) {hr newBrk : Nat} {ok : Bool}
    (old : (v.procs pid).brkCurrent ≤ 0x40000000) (new : newBrk ≤ 0x40000000)
    (result : moveBrk v pid hr newBrk grants = some (v', ok)) : Apart kernel v' := by
  have moved : ∀ {proc : Proc}, { proc with brkCurrent := newBrk }.BrkBelow :=
    fun {proc} => .inr (.inr new)
  rcases moveBrk_cases result with ⟨_, _, rfl, _⟩ |
    ⟨grows, _, x, mapped, all, mapping, outcome⟩ | ⟨shrinks, _, x, rfl, rfl⟩ | ⟨_, _, rfl⟩
  · exact apart
  · obtain ⟨maps, _, count, _, _⟩ := mapRange_spec mapping
    have room := between_below (alignUp_le new) grows
    have inRange : ∀ i, i < mapped → pageAt (alignUp (v.procs pid).brkCurrent) i < userSpaceLimit :=
      fun i bound => pageAt_below room (by omega)
    have mappedApart : Apart kernel x := apart.map maps fun i _ bound => inRange i bound
    rcases outcome with ⟨_, _, rfl⟩ | ⟨_, _, rfl⟩
    · exact mappedApart.setProc rfl moved
    refine mappedApart.unmap (unmapUserRange_spec _ _ _ _ _) ?_
    rintro _ ⟨i, bound, rfl⟩
    exact inRange i bound
  · have room := between_below (alignUp_le old) shrinks
    refine Apart.setProc (apart.unmap (unmapUserRange_spec _ _ _ _ _) ?_) rfl moved
    rintro _ ⟨_, bound, rfl⟩
    exact pageAt_below room bound
  · exact apart.setProc rfl moved

theorem Apart.sysBrk (apart : Apart kernel v) {newBrk : Nat} {ret : Int}
    (result : sysBrk v pid newBrk fresh grants = some (v', ret)) : Apart kernel v' := by
  rcases sysBrk_cases result with ⟨_, rfl, _⟩ | ⟨_, proc, look, rest⟩
  · exact apart
  obtain ⟨pte, start, current⟩ := heapLookup_same look
  have lazyPte : (lazyBrk (v.procs pid)).pte = (v.procs pid).pte := by
    unfold lazyBrk
    split <;> rfl
  have below := lazyBrk_below (apart.brk pid)
  rw [← start, ← current] at below
  have looked : Apart kernel (v.setProc pid proc) := apart.setProc (pte.trans lazyPte) (.inr below)
  rcases rest with ⟨rfl, _⟩ | ⟨hr, _, _, capped, le, ok, moved, _⟩
  · exact looked
  refine looked.moveBrk ?_ capped moved
  rw [setProc_self]
  omega

theorem Apart.step (apart : Apart kernel v) {call : Call} (taken : UserMem.step v call v')
    (ends : EndsBelow v call) : Apart kernel v' := by
  obtain ⟨executed, _⟩ := taken
  cases call with
  | mmap =>
    obtain ⟨⟨_, _⟩, result, rfl⟩ := map_eq_some_iff.mp executed
    exact apart.sysMmap ends result
  | munmap =>
    obtain ⟨⟨_, _⟩, result, rfl⟩ := map_eq_some_iff.mp executed
    exact apart.sysMunmap ends result
  | brk =>
    obtain ⟨⟨_, _⟩, result, rfl⟩ := map_eq_some_iff.mp executed
    exact apart.sysBrk result

end Calls

section Runs

variable {v v' : Vm}

/-- In every run whose ranges end in the user half, every page that was mapped
or unmapped lies in the user half, no frame of the kernel half was mapped,
unmapped or freed, and the kernel half is as it was. -/
theorem user_half {calls : List Call} (sound : Sound v) (run : Steps
    (Guarded UserMem.step EndsBelow) v calls v') : (∀ e ∈ v'.log, e.InUserHalf v.kernel) ∧
      ∀ page, userSpaceLimit ≤ page → v'.kernel page = v.kernel page := by
  have apart : Apart v.kernel v' := run.invariant
    (fun _ _ _ old next => old.step next.1 next.2) sound.apart
  exact ⟨apart.log, apart.shared⟩

/-- A test that is enough for `EndsBelow` and for the rest of a step. -/
def endsCheck (v : Vm) (call : Call) : Bool :=
  (call.fresh.2.all fun p =>
      !(v.procs call.fresh.1).space.live.contains p) &&
    decide call.InRegisters &&
    match call with
    | .mmap _ virt pages _ _ =>
      decide (virt + pages * pageSize ≤ userSpaceLimit)
    | .munmap _ virt pages =>
      decide (virt + pages * pageSize ≤ userSpaceLimit)
    | .brk .. => true

theorem endsCheck_sound {call : Call} (passed : endsCheck v call = true) : (call.InRegisters ∧
    ∀ p, call.fresh.2 = some p → p ∉ (v.procs call.fresh.1).space.live) ∧ EndsBelow v call := by
  obtain ⟨early, inside⟩ := Bool.and_eq_true_iff.mp passed
  obtain ⟨unused, registers⟩ := Bool.and_eq_true_iff.mp early
  refine ⟨⟨of_decide_eq_true registers, fun p given member => ?_⟩, ?_⟩
  · rw [given] at unused
    simp [member] at unused
  cases call with
  | mmap =>
    intro _ _ _ _
    refine le_trans ?_ (of_decide_eq_true inside)
    exact Nat.add_le_add_left (Nat.mul_le_mul_right _ (Nat.min_le_left _ _)) _
  | munmap => exact fun _ _ _ => of_decide_eq_true inside
  | brk => trivial

/-- Processes with empty address spaces, the first two megabytes of memory in
the kernel half, and ten free frames. -/
def bootVm : Vm where
  procs := fun _ => ⟨Regions.initial, fun _ => none, 0, 0, none⟩
  kernel := fun page =>
    if userSpaceLimit ≤ page ∧ page < userSpaceLimit + 0x200000 then
      some (page - userSpaceLimit)
    else none
  free := fun frame => decide (0x200000 ≤ frame ∧ frame < 0x20A000)
  log := []

theorem bootVm_sound : Sound bootVm := by
  have kernelFrame : ∀ f, KernelFrame bootVm.kernel f → f < 0x200000 := by
    rintro _ ⟨_, _, mapped⟩
    simp only [bootVm, ite_none_right_eq_some, Option.some.injEq] at mapped
    omega
  constructor
  case user =>
    intro q page f low found
    rw [lookup, if_pos low] at found
    cases found
  case free =>
    intro f free kernel
    exact absurd (of_decide_eq_true free).1 (Nat.not_le.mpr (kernelFrame f kernel))
  case brk => exact fun q => .inl rfl
  case log => rfl

/-- Two pages by mmap, one page of heap, and the first page again. -/
def shortLife : List Call :=
  [.mmap 1 0 2 (some 1) [0x200000, 0x201000],
    .brk 1 0x10000001 (some 2) [0x202000], .munmap 1 0x40000000 1]

theorem user_half_shortLife : ∃ v', Steps (Guarded UserMem.step EndsBelow) bootVm shortLife v' ∧
      v'.log = [.freed 0x200000 false, .unmapped 1 0x40000000 (some 0x200000),
        .mapped 1 0x10000000 0x202000, .mapped 1 0x40001000 0x201000,
        .mapped 1 0x40000000 0x200000] ∧ (∀ e ∈ v'.log, e.InUserHalf bootVm.kernel) ∧
      ∀ page, userSpaceLimit ≤ page → v'.kernel page = bootVm.kernel page := by
  have followed : (followRun (checked exec endsCheck) bootVm shortLife).map Vm.log = some [.freed 0x200000 false,
        .unmapped 1 0x40000000 (some 0x200000), .mapped 1 0x10000000 0x202000,
          .mapped 1 0x40001000 0x201000, .mapped 1 0x40000000 0x200000] := by
    decide +kernel
  obtain ⟨v', steps, seen⟩ := Steps.guarded_of_followed endsCheck_sound followed
  have run : Steps (Guarded UserMem.step EndsBelow) bootVm shortLife v' :=
    steps.mono fun _ _ _ taken => ⟨⟨taken.1, taken.2.1⟩, taken.2.2⟩
  exact ⟨v', run, seen, user_half bootVm_sound run⟩

/-- A fixed mmap of the page where the kernel half begins. -/
def mapsKernel : List Call :=
  [.mmap 1 0xC0000000 1 (some 1) [0x200000]]

/-- A page below the kernel half is mapped, and three pages are unmapped from
it. -/
def unmapsKernel : List Call :=
  [.mmap 1 0xBFFFF000 1 (some 1) [0x200000], .munmap 1 0xBFFFF000 3]

/-- A page of the kernel is overwritten by the first run; two are unmapped by
the second, and the frame of one is freed. -/
theorem user_half_kernelPage : (∃ v', Steps UserMem.step bootVm mapsKernel v' ∧
    ∃ e ∈ v'.log, ¬ e.InUserHalf bootVm.kernel) ∧ ∃ v', Steps UserMem.step bootVm unmapsKernel v' ∧
      ∃ e ∈ v'.log, ¬ e.InUserHalf bootVm.kernel := by
  have kernelFrame : KernelFrame bootVm.kernel 0x1000 :=
    ⟨0xC0001000, by decide, by decide⟩
  have maps : (exec bootVm (.mmap 1 0xC0000000 1 (some 1) [0x200000])).map
      Vm.log = some [.mapped 1 0xC0000000 0x200000] := by
    decide +kernel
  have unmaps : (followRun exec bootVm unmapsKernel).map Vm.log = some [.freed 0x1000 false,
      .freed 0x200000 false, .unmapped 1 0xC0001000 (some 0x1000), .unmapped 1 0xC0000000 (some 0),
        .unmapped 1 0xBFFFF000 (some 0x200000), .mapped 1 0xBFFFF000 0x200000] := by
    decide +kernel
  obtain ⟨one, result, seen⟩ := map_eq_some_iff.mp maps
  obtain ⟨two, result', seen'⟩ := map_eq_some_iff.mp unmaps
  obtain ⟨mid, first, rest⟩ := bind_eq_some_iff.mp result'
  obtain ⟨last, second, equal⟩ := bind_eq_some_iff.mp rest
  cases equal
  refine ⟨⟨one, .single ⟨result, by decide, fun p _ => ?_⟩, _, by
    rw [seen]; exact List.mem_cons_self, ?_⟩, two,
    .cons ⟨first, by decide, fun p _ => ?_⟩
      (.single ⟨second, by decide, fun p given => ?_⟩), .freed 0x1000 false, by
    rw [seen']; exact List.mem_cons_self, fun apart => apart kernelFrame⟩
  · exact List.not_mem_nil
  · rintro ⟨low, _⟩
    exact absurd low (by decide)
  · exact List.not_mem_nil
  · cases given

end Runs

end MainDob.Kernel.UserMem
