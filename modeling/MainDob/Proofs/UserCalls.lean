/-
Purpose: What each successful path of sys_mmap, sys_munmap and sys_brk does, as
  one inversion lemma per call, so that no later proof unfolds a call.
Main exports: MmapPath, sysMmap_cases, MunmapPath
-/
import MainDob.Proofs.Unmapping

namespace MainDob.Kernel.UserMem

open Regions
open Option

section Frames

variable {v : Vm} {pid q page : Nat} {space : Space} {proc : Proc}

theorem setSpace_lookup : lookup (v.setSpace pid space) q page = lookup v q page := by
  unfold lookup Vm.setSpace Vm.setProc
  by_cases self : q = pid
  · subst self
    simp
  · simp [self]

theorem setProc_lookup (same : proc.pte = (v.procs pid).pte) :
    lookup (v.setProc pid proc) q page = lookup v q page := by
  unfold lookup Vm.setProc
  by_cases self : q = pid
  · subst self
    simp [same]
  · simp [self]

@[simp] theorem setProc_self : (v.setProc pid proc).procs pid = proc := by simp [Vm.setProc]

theorem setProc_other (other : q ≠ pid) : (v.setProc pid proc).procs q = v.procs q := by
  simp [Vm.setProc, other]

@[simp] theorem setSpace_self : ((v.setSpace pid space).procs pid).space = space := by
  simp [Vm.setSpace]

theorem setSpace_other (other : q ≠ pid) :
    (v.setSpace pid space).procs q = v.procs q := setProc_other other

end Frames

section Calls

variable {v v' : Vm} {pid virt pages newBrk addr : Nat} {fresh : Option Nat}
variable {grants : List Nat} {ok : Bool}

/-- The path of `sys_mmap` after its region was made at `base`: all pages are
mapped, or memory runs out and everything is undone. -/
def MmapPath (w v' : Vm) (pid base pages addr : Nat) (grants : List Nat) :
    Prop :=
  ∃ x mapped all, mapRange pid base pages 0 grants w = some (x, mapped, all) ∧
    ((all = true ∧ addr = base ∧ ∃ space, commit (x.procs pid).space base pages = some space ∧
          v' = x.setSpace pid space) ∨ (all = false ∧ addr = 0 ∧ ∃ space n,
        vregionFree ((unmapUserRange x pid base mapped true).procs pid).space
            base = some (space, n) ∧
          v' = (unmapUserRange x pid base mapped true).setSpace pid space))

theorem sysMmap_cases (result : sysMmap v pid virt pages fresh grants = some (v', addr)) :
    ((pages = 0 ∨ 4096 < pages) ∧ v' = v ∧ addr = 0) ∨ (0 < pages ∧ pages ≤ 4096 ∧ ∃ space base,
        mmapRegion (v.procs pid).space virt pages fresh = some (space, base) ∧
          ((base = 0 ∧ v' = v.setSpace pid space ∧ addr = 0) ∨ (base ≠ 0 ∧
              MmapPath (v.setSpace pid space) v' pid base pages addr grants))) := by
  unfold sysMmap at result
  split at result
  · next bad =>
      cases result
      exact .inl ⟨bad, rfl, rfl⟩
  next good =>
    right
    refine ⟨by omega, by omega, ?_⟩
    obtain ⟨⟨space, base⟩, region, result⟩ := bind_eq_some_iff.mp result
    refine ⟨space, base, region, ?_⟩
    dsimp only at result
    split at result
    · next zero =>
        cases result
        exact .inl ⟨zero, rfl, rfl⟩
    next notZero =>
      obtain ⟨⟨x, mapped, all⟩, mapping, result⟩ := bind_eq_some_iff.mp result
      refine .inr ⟨notZero, x, mapped, all, mapping, ?_⟩
      cases all with
      | true =>
        obtain ⟨space', committed, equal⟩ := map_eq_some_iff.mp result
        cases equal
        exact .inl ⟨rfl, rfl, space', committed, rfl⟩
      | false =>
        obtain ⟨⟨space', n⟩, freed, equal⟩ := map_eq_some_iff.mp result
        cases equal
        exact .inr ⟨rfl, rfl, space', n, freed, rfl⟩

/-- The path of `sys_munmap` after it found the region `r`. -/
def MunmapPath (v v' : Vm) (pid virt pages r : Nat) : Prop :=
  ∃ space n, vregionFree ((unmapUserRange v pid virt pages
        (!((v.procs pid).space.nodes r).has vregDevice)).procs pid).space virt =
      some (space, n) ∧ v' = (unmapUserRange v pid virt pages
      (!((v.procs pid).space.nodes r).has vregDevice)).setSpace pid space

theorem sysMunmap_cases (result : sysMunmap v pid virt pages = some (v', ok)) :
    (ok = false ∧ v' = v) ∨ (ok = true ∧ pages ≠ 0 ∧ virt % pageSize = 0 ∧ ∃ r,
        vregionFindExact (v.procs pid).space virt = some (some r) ∧
          ((v.procs pid).space.nodes r).has vregFixed = false ∧
          MunmapPath v v' pid virt pages r) := by
  unfold sysMunmap at result
  split at result
  · cases result
    exact .inl ⟨rfl, rfl⟩
  next good =>
    obtain ⟨found, search, result⟩ := bind_eq_some_iff.mp result
    cases found with
    | none =>
      cases result
      exact .inl ⟨rfl, rfl⟩
    | some r =>
      dsimp only at result
      split at result
      · cases result
        exact .inl ⟨rfl, rfl⟩
      next notFixed =>
        obtain ⟨⟨space, n⟩, freed, equal⟩ := map_eq_some_iff.mp result
        cases equal
        refine .inr ⟨rfl, fun zero => good (.inl zero), ?_, r, search,
          by simpa using notFixed, space, n, freed, rfl⟩
        by_contra unaligned
        exact good (.inr unaligned)

section

variable {proc proc' : Proc} (result : heapLookup proc fresh = some proc')
include result

theorem heapLookup_cases :
    (∃ hr, proc.heapRegion = some hr ∧ proc' = proc) ∨ (proc.heapRegion = none ∧
        ((∃ hr, vregionFindExact proc.space proc.brkStart = some (some hr) ∧
            proc' = { proc with heapRegion := some hr }) ∨
          (vregionFindExact proc.space proc.brkStart = some none ∧
            ∃ space node, vregionInsert proc.space proc.brkStart 0
                (vregHeap ||| vregUserRw) fresh = some (space, node) ∧
              proc' = { proc with space := space, heapRegion := node }))) := by
  unfold heapLookup at result
  cases region : proc.heapRegion with
  | some hr =>
    simp only [region, Option.some.injEq] at result
    exact .inl ⟨hr, rfl, result.symm⟩
  | none =>
    simp only [region] at result
    refine .inr ⟨rfl, ?_⟩
    obtain ⟨found, search, result⟩ := bind_eq_some_iff.mp result
    cases found with
    | some hr =>
      cases result
      exact .inl ⟨hr, search, rfl⟩
    | none =>
      obtain ⟨⟨space, node⟩, inserted, equal⟩ := map_eq_some_iff.mp result
      cases equal
      exact .inr ⟨search, space, node, inserted, rfl⟩

theorem heapLookup_same :
    proc'.pte = proc.pte ∧ proc'.brkStart = proc.brkStart ∧ proc'.brkCurrent = proc.brkCurrent := by
  rcases heapLookup_cases result with ⟨hr, _, rfl⟩ |
    ⟨_, ⟨hr, _, rfl⟩ | ⟨_, space, node, _, rfl⟩⟩ <;>
  exact ⟨rfl, rfl, rfl⟩

end

theorem sysBrk_cases {ret : Int} (result : sysBrk v pid newBrk fresh grants = some (v', ret)) :
    (pid = 0 ∧ v' = v ∧ ret = -1) ∨
    (pid ≠ 0 ∧ ∃ proc, heapLookup (lazyBrk (v.procs pid)) fresh = some proc ∧
        ((v' = v.setProc pid proc ∧ (((newBrk = 0 ∨ (proc.heapRegion.isSome ∧
              newBrk ≤ 0x40000000 ∧ newBrk < proc.brkStart)) ∧ ret = proc.brkCurrent) ∨
            (newBrk ≠ 0 ∧ (proc.heapRegion = none ∨ 0x40000000 < newBrk) ∧ ret = -1))) ∨
          ∃ hr, newBrk ≠ 0 ∧ proc.heapRegion = some hr ∧
            newBrk ≤ 0x40000000 ∧ proc.brkStart ≤ newBrk ∧ ∃ ok,
              moveBrk (v.setProc pid proc) pid hr newBrk grants =
                some (v', ok) ∧ ret = if ok then (newBrk : Int) else -1)) := by
  unfold sysBrk at result
  split at result
  · next kernel =>
      cases result
      exact .inl ⟨kernel, rfl, rfl⟩
  next user =>
    right
    obtain ⟨proc, look, result⟩ := bind_eq_some_iff.mp result
    refine ⟨user, proc, look, ?_⟩
    split at result
    · next query =>
        cases result
        exact .inl ⟨rfl, .inl ⟨.inl query, rfl⟩⟩
    next asks =>
      cases region : proc.heapRegion with
      | none =>
        simp only [region] at result
        cases result
        exact .inl ⟨rfl, .inr ⟨asks, .inl rfl, rfl⟩⟩
      | some hr =>
        simp only [region] at result
        split at result
        · next high =>
            cases result
            exact .inl ⟨rfl, .inr ⟨asks, .inr high, rfl⟩⟩
        next capped =>
          split at result
          · next low =>
              cases result
              exact .inl ⟨rfl, .inl ⟨.inr ⟨rfl, by omega, low⟩, rfl⟩⟩
          · next enough =>
              obtain ⟨⟨w, ok⟩, moved, equal⟩ := map_eq_some_iff.mp result
              cases equal
              exact .inr ⟨hr, asks, rfl, by omega, by omega, ok, moved, rfl⟩

theorem moveBrk_cases {hr : Nat} (result : moveBrk v pid hr newBrk grants = some (v', ok)) :
    let proc := v.procs pid
    let oldPage := alignUp proc.brkCurrent
    let newPage := alignUp newBrk
    let newPages := sub32 newPage proc.brkStart / pageSize
    (oldPage < newPage ∧ brkInvades proc hr newPages = true ∧ v' = v ∧ ok = false) ∨
      (oldPage < newPage ∧ brkInvades proc hr newPages = false ∧ ∃ x mapped all,
          mapRange pid oldPage ((newPage - oldPage) / pageSize) 0 grants v = some (x, mapped, all) ∧
          ((all = true ∧ ok = true ∧ v' = x.setProc pid
              { setHeapPages (x.procs pid) hr newPages with brkCurrent := newBrk }) ∨
            (all = false ∧ ok = false ∧ v' = unmapUserRange x pid oldPage mapped true))) ∨
      (newPage < oldPage ∧ ok = true ∧ ∃ x,
        x = unmapUserRange v pid newPage ((oldPage - newPage) / pageSize) true ∧
        v' = x.setProc pid { setHeapPages (x.procs pid) hr newPages with brkCurrent := newBrk }) ∨
      (oldPage = newPage ∧ ok = true ∧ v' = v.setProc pid { proc with brkCurrent := newBrk }) := by
  unfold moveBrk at result
  dsimp only at result
  split at result
  · next grows =>
      split at result
      · next invades =>
          cases result
          exact .inl ⟨grows, invades, rfl, rfl⟩
      next fits =>
        right
        left
        obtain ⟨⟨x, mapped, all⟩, mapping, equal⟩ := map_eq_some_iff.mp result
        refine ⟨grows, by simpa using fits, x, mapped, all, mapping, ?_⟩
        cases all with
        | true =>
          cases equal
          exact .inl ⟨rfl, rfl, rfl⟩
        | false =>
          cases equal
          exact .inr ⟨rfl, rfl, rfl⟩
  · next notGrows =>
      split at result
      · next shrinks =>
          cases result
          exact .inr (.inr (.inl ⟨shrinks, rfl, _, rfl, rfl⟩))
      · next notShrinks =>
          cases result
          exact .inr (.inr (.inr ⟨by omega, rfl, rfl⟩))

end Calls

end MainDob.Kernel.UserMem
