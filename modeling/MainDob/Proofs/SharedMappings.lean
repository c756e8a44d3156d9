/-
Purpose: What attaching a segment to a process and detaching it do to regions,
  pages and frames, and what the searches for a mapping find.
Main exports: Attached, Detached, mapInto_spec
-/
import MainDob.Proofs.MunmapFrame
import MainDob.Proofs.RegionEdits

namespace MainDob.Kernel.Shm

open Lib
open Regions
open UserMem
open List Option

/-! ### Pages of a region -/

section Pages

variable {r r' : Vregion} {page : Nat}

theorem Covers.bounds (covered : Covers r page) : r.base ≤ page ∧ page < r.stop := by
  obtain ⟨i, bound, rfl⟩ := covered
  simp only [Vregion.stop, pageSize] at *
  omega

theorem Covers.congr (same : SameRegion r r') : Covers r' page ↔ Covers r page := by
  unfold Covers
  rw [same.base, same.pages]

theorem maps_congr (same : SameRegion r r') (id : Nat) : maps id r' = maps id r := by
  rw [maps, maps, same.has, same.backingId]

theorem covers_unique {space : Space} {ids : List Nat} (regular : Regular space ids) {p q : Nat}
    (pIn : p ∈ ids) (qIn : q ∈ ids) (pHas : Covers (space.nodes p) page)
    (qHas : Covers (space.nodes q) page) : p = q :=
  regular.same page pIn qIn pHas.bounds qHas.bounds

theorem pageAt_linear {vaddr i n : Nat}
    (fits : vaddr + n * pageSize ≤ userSpaceLimit) (bound : i < n) :
    pageAt vaddr i = vaddr + i * pageSize ∧ vaddr + i * pageSize < userSpaceLimit := by
  simp only [pageAt, add32, mul32, wordSize, pageSize, userSpaceLimit] at *
  omega

end Pages

/-! ### The loops -/

section Loops

variable {v v' : Vm} {pid vaddr : Nat}

theorem mapPage_lookup {page frame q other : Nat} (low : page < userSpaceLimit) :
    lookup (mapPage v pid page frame) q other =
      if q = pid ∧ other = page then some frame else lookup v q other := by
  have view : lookup (mapPage v pid page frame) q other =
      if other = page ∧ Sees pid q page then some frame
      else lookup v q other := lookup_setEntry
  have mine : Sees pid q page ↔ q = pid := by
    unfold Sees
    omega
  rw [view]
  by_cases self : q = pid
  · simp [self, sees_self]
  · simp [self, mine]

theorem mapFrames_spec (v : Vm) (pid start : Nat) {frames : List Nat}
    (fits : vaddr + (start + frames.length) * pageSize ≤ userSpaceLimit) :
    SameProcs v (mapFrames pid vaddr start frames v) ∧ (∀ i f, frames[i]? = some f →
        lookup (mapFrames pid vaddr start frames v) pid (vaddr + (start + i) * pageSize) = some f) ∧
      (∀ q page, ¬ (q = pid ∧ ∃ i, i < frames.length ∧ page = vaddr + (start + i) * pageSize) →
        lookup (mapFrames pid vaddr start frames v) q page = lookup v q page) ∧
      (mapFrames pid vaddr start frames v).free = v.free ∧
      ∀ f, .freed f true ∈ (mapFrames pid vaddr start frames v).log → .freed f true ∈ v.log := by
  induction frames generalizing v start with
  | nil => exact ⟨.refl v, by simp, fun _ _ _ => rfl, rfl, fun _ h => h⟩
  | cons frame _ ih =>
    rw [length_cons] at fits
    obtain ⟨place, low⟩ := pageAt_linear fits (i := start) (by omega)
    obtain ⟨procs, shown, kept, free, log⟩ := ih (mapPage v pid (pageAt vaddr start) frame)
      (start + 1) (by rw [Nat.add_right_comm, Nat.add_assoc]; exact fits)
    rw [mapFrames]
    refine ⟨SameProcs.trans setEntry_procs procs, ?_, ?_, ?_, ?_⟩
    · intro i f found
      cases i with
      | zero =>
        cases found
        rw [kept, place, mapPage_lookup low, add_zero]
        · simp
        rintro ⟨_, j, _, same⟩
        simp only [pageSize] at same
        omega
      | succ i =>
        rw [show start + (i + 1) = start + 1 + i by omega]
        exact shown i f found
    · intro q page outside
      rw [kept, place, mapPage_lookup low, if_neg]
      · rintro ⟨rfl, rfl⟩
        exact outside ⟨rfl, 0, Nat.succ_pos _, by rw [add_zero]⟩
      · rintro ⟨rfl, i, bound, rfl⟩
        refine outside ⟨rfl, i + 1, Nat.succ_lt_succ bound, ?_⟩
        rw [show start + (i + 1) = start + 1 + i by omega]
    · rw [free]
      exact setEntry_free
    · intro f member
      have earlier := log f member
      simp only [mapPage, Vm.note, setEntry_log, mem_cons] at earlier
      rcases earlier with impossible | old
      · cases impossible
      · exact old

theorem unmapPages_eq (n : Nat) : (List.range n).foldl (fun v i => unmapPage v pid
    (pageAt vaddr i)) v = ((List.range n).foldl (unmapOne pid vaddr false) (v, [])).1 := by
  induction n with
  | zero => rfl
  | succ _ ih =>
    rw [range_succ, foldl_append, foldl_append, ih]
    rfl

theorem takeFrames_spec {left : Nat} {grants got got' : List Nat} {all : Bool}
    (result : takeFrames left grants v got = some (v', got', all)) :
    v'.procs = v.procs ∧ v'.kernel = v.kernel ∧ v'.log = v.log ∧ ∃ new, got' = got ++
      new ∧ new.Nodup ∧ (all = true → new.length = left) ∧ (∀ f ∈ new, v.free f = true ∧ f ≠ 0) ∧
        ∀ f, v'.free f = true ↔ v.free f = true ∧ f ∉ new := by
  induction left generalizing grants v got with
  | zero =>
    obtain ⟨rfl, rfl, rfl⟩ := result
    exact ⟨rfl, rfl, rfl, [], by simp⟩
  | succ _ ih =>
    cases grants with
    | nil =>
      obtain ⟨rfl, rfl, rfl⟩ := result
      exact ⟨rfl, rfl, rfl, [], by simp⟩
    | cons frame =>
      rw [takeFrames] at result
      split at result
      · next granted =>
          obtain ⟨procs, kernel, log, new, whole, distinct, count, were, free⟩ := ih result
          have absent : frame ∉ new := by
            intro member
            have still := (were frame member).1
            simp at still
          refine ⟨procs, kernel, log, frame :: new, ?_,
            nodup_cons.mpr ⟨absent, distinct⟩, ?_, ?_, ?_⟩
          · rw [whole, append_assoc]
            rfl
          · intro done
            rw [length_cons, count done]
          · intro f member
            rcases mem_cons.mp member with rfl | later
            · exact granted
            obtain ⟨still, notZero⟩ := were f later
            have other : f ≠ frame := fun same => absent (same ▸ later)
            simp only [Function.update_of_ne other] at still
            exact ⟨still, notZero⟩
          · intro f
            rw [free, mem_cons]
            by_cases here : f = frame <;> simp [here]
      · cases result

theorem mappingWalk_spec {nodes : Nat → Vregion} (test : Vregion → Bool) {ids : List Nat}
    {fuel : Nat} (links : Seg (fun p => (nodes p).next) ids none) (enough : ids.length < fuel) :
    mappingWalk nodes test fuel ids.head? = some (ids.find? fun p => test (nodes p)) := by
  induction ids generalizing fuel with
  | nil =>
    cases fuel with
    | zero => cases enough
    | succ => rfl
  | cons cur _ ih =>
    cases fuel with
    | zero => cases enough
    | succ =>
      rw [List.head?_cons, mappingWalk, List.find?_cons]
      cases passed : test (nodes cur) with
      | true => rfl
      | false =>
        rw [seg_head links]
        exact ih links.2 (Nat.lt_of_succ_lt_succ enough)

end Loops

/-! ### Attaching and detaching -/

/-- A segment's frames were mapped into the process as the region `n`. -/
structure Attached (v v' : Vm) (ids ids' : List Nat) (pid id n vaddr : Nat)
    (frames : List Nat) : Prop where
  added : Added (v.procs pid).space (v'.procs pid).space ids ids' n
    ⟨vaddr, frames.length, vregShared ||| vregUserRw, id, 0, none, none⟩
  others : ∀ q, q ≠ pid → (v'.procs q).space = (v.procs q).space
  window : vaddr + frames.length * pageSize ≤ shmUserLimit
  shown : ∀ i f, frames[i]? = some f → lookup v' pid (vaddr + i * pageSize) = some f
  kept : ∀ q page, ¬ (q = pid ∧ ∃ i, i < frames.length ∧
      page = vaddr + i * pageSize) → lookup v' q page = lookup v q page
  free : v'.free = v.free
  log : ∀ f, .freed f true ∈ v'.log → .freed f true ∈ v.log

/-- The region `r` went from the process, and nothing was unmapped outside
it. -/
structure Detached (v v' : Vm) (ids ids' : List Nat) (pid r : Nat) :
    Prop where
  removed : Removed (v.procs pid).space (v'.procs pid).space ids ids' r
  others : ∀ q, q ≠ pid → (v'.procs q).space = (v.procs q).space
  fewer : ∀ q page f, lookup v' q page = some f → lookup v q page = some f
  kept : ∀ q page, ¬ (q = pid ∧ Covers ((v.procs pid).space.nodes r) page) →
    lookup v' q page = lookup v q page
  log : ∀ f, .freed f true ∈ v'.log → .freed f true ∈ v.log

theorem setSpace_same (v : Vm) (pid : Nat) : v.setSpace pid (v.procs pid).space = v := by
  unfold Vm.setSpace Vm.setProc
  rw [show ({ v.procs pid with space := (v.procs pid).space } : Proc) =
    v.procs pid from rfl, Function.update_eq_self]

section Attach

variable {s : State} {ids : List Nat} {g pid : Nat} {node : Option Nat}

theorem mapInto_spec (id : Nat) (regular : Regular (s.vm.procs pid).space ids)
    (small : (s.segs g).frames.length ≤ shmMaxPages)
    (isFresh : ∀ p, node = some p → p ∉ (s.vm.procs pid).space.live) :
    mapInto s g pid id node = some (s, 0) ∨
    ∃ n vm ids' vaddr, mapInto s g pid id node = some ({ s with vm := vm }, vaddr) ∧ vaddr ≠ 0 ∧
      0 < (s.segs g).frames.length ∧
      Attached s.vm vm ids ids' pid id n vaddr (s.segs g).frames := by
  unfold mapInto
  dsimp only
  rcases regular.adds (s.segs g).frames.length shmUserBase shmUserLimit
      (vregShared ||| vregUserRw) id node (by simp only
      [pageSize, wordSize, shmMaxPages] at *; omega) (by decide) (by decide) isFresh with
    result | ⟨n, space, ids', vaddr, _, result, least, _, low, high, added⟩
  · left
    rw [result, bind_some, if_pos rfl, setSpace_same]
  right
  have notZero : vaddr ≠ 0 := by
    simp only [shmUserBase] at low
    omega
  rw [result, bind_some, if_neg notZero]
  have fits : vaddr + (0 + (s.segs g).frames.length) * pageSize ≤ userSpaceLimit := by
    rw [zero_add]
    simp only [shmUserLimit, userSpaceLimit] at *
    omega
  obtain ⟨procs, shown, kept, free, log⟩ := mapFrames_spec (s.vm.setSpace pid space) pid 0 fits
  have here : ((mapFrames pid vaddr 0 (s.segs g).frames
      (s.vm.setSpace pid space)).procs pid).space = space := by
    rw [(procs pid).1, setSpace_self]
  obtain ⟨space', committed, regular', _, same⟩ :=
    added.regular.commits vaddr (s.segs g).frames.length
  refine ⟨n, (mapFrames pid vaddr 0 (s.segs g).frames
    (s.vm.setSpace pid space)).setSpace pid space', ids', vaddr, ?_, notZero, least, ?_⟩
  · dsimp only
    rw [here, committed, map_some]
  constructor
  case added =>
    rw [setSpace_self]
    exact added.congr regular' same
  case others =>
    intro q other
    rw [setSpace_other other, (procs q).1, setSpace_other other]
  case window => exact high
  case shown =>
    intro i f found
    rw [setSpace_lookup]
    have := shown i f found
    rwa [zero_add] at this
  case kept =>
    intro q page outside
    rw [setSpace_lookup, kept, setSpace_lookup]
    rintro ⟨rfl, i, bound, rfl⟩
    refine outside ⟨rfl, i, bound, by rw [zero_add]⟩
  case free => exact free
  case log => exact log

theorem unmapFrom_spec {r : Nat} (regular : Regular (s.vm.procs pid).space ids) (member : r ∈ ids)
    (inside : (s.region pid r).stop ≤ userSpaceLimit)
    (pages : (s.region pid r).pages = (s.segs g).frames.length) :
    ∃ vm ids', unmapFrom s g pid (s.region pid r).base = some { s with vm := vm } ∧
      Detached s.vm vm ids ids' pid r ∧
      (∀ page, Covers (s.region pid r) page → lookup vm pid page = none) ∧
      vm.free = s.vm.free := by
  obtain ⟨clears, _, _⟩ := unmapOne_spec s.vm pid (s.region pid r).base
    (s.segs g).frames.length false
  unfold unmapFrom
  dsimp only
  rw [unmapPages_eq]
  generalize ((List.range (s.segs g).frames.length).foldl
    (unmapOne pid (s.region pid r).base false) (s.vm, [])).1 = vm at clears
  rw [(clears.procs pid).1]
  -- the pages of the loop are those of the region
  have named : ∀ page, (∃ i, i < (s.segs g).frames.length ∧ page = pageAt (s.region pid r).base i) ↔
      Covers (s.region pid r) page := by
    intro page
    unfold Covers
    rw [pages]
    have fits : (s.region pid r).base + (s.segs g).frames.length * pageSize ≤ userSpaceLimit := by
      rw [← pages]
      exact inside
    constructor
    · rintro ⟨i, bound, rfl⟩
      exact ⟨i, bound, (pageAt_linear fits bound).1⟩
    · rintro ⟨i, bound, rfl⟩
      exact ⟨i, bound, (pageAt_linear fits bound).1.symm⟩
  rcases regular.removes (s.region pid r).base with ⟨_, nowhere⟩ |
    ⟨n, space, ids', search, start, result, removed⟩
  · exact absurd rfl (nowhere r member)
  have same : n = r := by
    obtain ⟨_, search', unique⟩ := regular.contract.findExact (s.region pid r).base
    rw [search] at search'
    cases search'
    exact Option.some.inj ((unique r).mpr ⟨member, rfl⟩)
  subst same
  rw [result, map_some]
  refine ⟨vm.setSpace pid space, ids', rfl, ⟨?_, ?_, ?_, ?_, ?_⟩, ?_, ?_⟩
  · rw [setSpace_self]
    exact removed
  · intro q other
    rw [setSpace_other other, (clears.procs q).1]
  · intro q page f found
    rw [setSpace_lookup] at found
    by_cases inRange : (∃ i, i < (s.segs g).frames.length ∧
        page = pageAt (s.region pid n).base i) ∧ Sees pid q page
    · rw [clears.gone q page inRange.1 inRange.2] at found
      cases found
    · rw [clears.kept q page inRange] at found
      exact found
  · intro q page outside
    rw [setSpace_lookup]
    refine clears.kept q page fun both => outside ?_
    have covered := (named page).mp both.1
    refine ⟨both.2.resolve_right fun high => ?_, covered⟩
    have below := covered.bounds.2
    omega
  · intro f freed
    rcases clears.log _ freed with old | ⟨_, _, _, impossible, _⟩
    · exact old
    · cases impossible
  · intro page covered
    rw [setSpace_lookup]
    exact clears.gone pid page ((named page).mpr covered) sees_self
  · exact clears.free

end Attach

end MainDob.Kernel.Shm
