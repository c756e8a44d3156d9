/-
Purpose: What unmap_user_range and the mapping loop of sys_mmap and sys_brk do
  to the pages of a range and to the frames behind them.
Main exports: SameProcs, Clears, Unmaps
-/
import MainDob.Kernel.Vm

namespace MainDob.Kernel.UserMem

open Function (update update_of_ne update_apply)
open Regions
open List

section Entries

variable {v v' : Vm} {pid q page other frame : Nat} {entry : Option Nat}

/-- The page belongs to the process's half of the directory, or to the half all
processes share. -/
def Sees (pid q page : Nat) : Prop := q = pid ∨ userSpaceLimit ≤ page

instance (pid q page : Nat) : Decidable (Sees pid q page) :=
  inferInstanceAs (Decidable (_ ∨ _))

theorem sees_self : Sees pid pid page := .inl rfl

theorem lookup_setEntry : lookup (v.setEntry pid page entry) q other =
    if other = page ∧ Sees pid q page then entry else lookup v q other := by
  by_cases user : page < userSpaceLimit
  · have entryBelow : v.setEntry pid page entry = v.setProc pid
        { v.procs pid with pte := update (v.procs pid).pte page entry } := if_pos user
    have mine : Sees pid q page ↔ q = pid := by
      unfold Sees
      omega
    rw [entryBelow]
    simp only [mine]
    by_cases self : q = pid
    · subst self
      by_cases here : other = page
      · subst here
        simp [lookup, Vm.setProc, user]
      · simp [lookup, Vm.setProc, here]
    · simp [lookup, Vm.setProc, self]
  · have entryAbove : v.setEntry pid page entry =
        { v with kernel := update v.kernel page entry } := if_neg user
    have shared : Sees pid q page := .inr (Nat.le_of_not_lt user)
    rw [entryAbove]
    by_cases here : other = page
    · subst here
      simp [lookup, user, shared]
    · simp [lookup, here]

/-- Processes are the same but for their page tables. -/
def SameProcs (v v' : Vm) : Prop := ∀ q,
  (v'.procs q).space = (v.procs q).space ∧ (v'.procs q).brkStart = (v.procs q).brkStart ∧
    (v'.procs q).brkCurrent = (v.procs q).brkCurrent ∧
    (v'.procs q).heapRegion = (v.procs q).heapRegion

theorem SameProcs.refl (v : Vm) : SameProcs v v := fun _ => ⟨rfl, rfl, rfl, rfl⟩

theorem SameProcs.trans {v'' : Vm} (one : SameProcs v v')
    (two : SameProcs v' v'') : SameProcs v v'' := by
  intro q
  obtain ⟨a, b, c, d⟩ := one q
  obtain ⟨a', b', c', d'⟩ := two q
  exact ⟨a'.trans a, b'.trans b, c'.trans c, d'.trans d⟩

theorem setEntry_procs : SameProcs v (v.setEntry pid page entry) := by
  intro q
  unfold Vm.setEntry
  split
  · simp only [Vm.setProc, update_apply]
    split
    · next same =>
        subst same
        exact ⟨rfl, rfl, rfl, rfl⟩
    · exact ⟨rfl, rfl, rfl, rfl⟩
  · exact ⟨rfl, rfl, rfl, rfl⟩

theorem setEntry_free : (v.setEntry pid page entry).free = v.free := by
  unfold Vm.setEntry
  split <;> rfl

theorem setEntry_log : (v.setEntry pid page entry).log = v.log := by
  unfold Vm.setEntry
  split <;> rfl

theorem lookup_note {event : Event} : lookup (v.note event) = lookup v := rfl

end Entries

/-! ### Unmapping -/

/-- The pages of `P` are unmapped, and nothing else. -/
structure Clears (v v' : Vm) (pid : Nat) (P : Nat → Prop) : Prop where
  procs : SameProcs v v'
  gone : ∀ q page, P page → Sees pid q page → lookup v' q page = none
  kept : ∀ q page, ¬ (P page ∧ Sees pid q page) → lookup v' q page = lookup v q page
  free : v'.free = v.free
  log : ∀ e ∈ v'.log, e ∈ v.log ∨ ∃ page frame, P page ∧
    e = .unmapped pid page frame ∧ ∀ f, frame = some f → lookup v pid page = some f

/-- The frames behind the pages of `P` are not free, and each is behind one page
only. -/
def Singly (v : Vm) (pid : Nat) (P : Nat → Prop) : Prop :=
  ∀ page f, P page → lookup v pid page = some f → v.free f = false ∧
    ∀ page', P page' → lookup v pid page' = some f → page' = page

/-- The pages of `P` are unmapped, and with `freePhys` their frames freed. -/
structure Unmaps (v v' : Vm) (pid : Nat) (P : Nat → Prop) (freePhys : Bool) :
    Prop where
  procs : SameProcs v v'
  gone : ∀ q page, P page → Sees pid q page → lookup v' q page = none
  kept : ∀ q page, ¬ (P page ∧ Sees pid q page) → lookup v' q page = lookup v q page
  freed : ∀ f, v'.free f = true ↔ v.free f = true ∨
    (freePhys = true ∧ f ≠ 0 ∧ ∃ page, P page ∧ lookup v pid page = some f)
  log : ∀ e ∈ v'.log, e ∈ v.log ∨ (∃ page frame, P page ∧ e = .unmapped pid page frame ∧
      ∀ f, frame = some f → lookup v pid page = some f) ∨
    ∃ page f again, P page ∧ e = .freed f again ∧ freePhys = true ∧ lookup v pid page = some f
  once : freePhys = true → Singly v pid P → ∀ f, .freed f true ∈ v'.log → .freed f true ∈ v.log

section Unmapping

variable {v v' v'' : Vm} {pid base virt n pages : Nat} {freePhys : Bool}
variable {P Q : Nat → Prop}

theorem Clears.lookup_pid (clears : Clears v v' pid P) {page f : Nat}
    (found : lookup v' pid page = some f) : ¬ P page ∧ lookup v pid page = some f := by
  have outside : ¬ P page := by
    intro inside
    rw [clears.gone pid page inside sees_self] at found
    cases found
  rw [clears.kept pid page fun both => outside both.1] at found
  exact ⟨outside, found⟩

theorem unmapOne_spec (v : Vm) (pid base n : Nat) (freePhys : Bool) :
    let r := (List.range n).foldl (unmapOne pid base freePhys) (v, [])
    Clears v r.1 pid (fun page => ∃ i, i < n ∧ page = pageAt base i) ∧
      (∀ f, f ∈ r.2 ↔ freePhys = true ∧ ∃ i, i < n ∧ lookup v pid (pageAt base i) = some f) ∧
      (Singly v pid (fun page => ∃ i, i < n ∧ page = pageAt base i) → r.2.Nodup) := by
  induction n with
  | zero =>
    refine ⟨⟨.refl v, ?_, fun _ _ _ => rfl, rfl, fun e h => .inl h⟩, ?_, fun _ => nodup_nil⟩
    · rintro q page ⟨i, impossible, _⟩
      cases impossible
    · simp
  | succ n ih =>
    rw [range_succ, foldl_append]
    obtain ⟨clears, phys, distinct⟩ := ih
    generalize (List.range n).foldl (unmapOne pid base freePhys) (v, []) = r at clears phys distinct
    obtain ⟨w, found⟩ := r
    simp only [foldl_cons, foldl_nil, unmapOne]
    have split : ∀ i, i < n + 1 ↔ i < n ∨ i = n := fun i => Nat.lt_succ_iff_lt_or_eq
    refine ⟨⟨?_, ?_, ?_, ?_, ?_⟩, ?_, ?_⟩
    · exact clears.procs.trans setEntry_procs
    · rintro q page ⟨i, bound, rfl⟩ sees
      simp only [unmapPage, lookup_note, lookup_setEntry]
      split
      · rfl
      next other =>
        rcases (split i).mp bound with earlier | rfl
        · exact clears.gone q _ ⟨i, earlier, rfl⟩ sees
        · exact absurd ⟨rfl, sees⟩ other
    · intro q page outside
      simp only [unmapPage, lookup_note, lookup_setEntry]
      split
      · next both =>
          refine absurd ⟨⟨n, Nat.lt_succ_self n, both.1⟩, ?_⟩ outside
          rw [both.1]
          exact both.2
      · refine clears.kept q page ?_
        rintro ⟨⟨i, bound, same⟩, sees⟩
        exact outside ⟨⟨i, Nat.lt_succ_of_lt bound, same⟩, sees⟩
    · simp only [unmapPage, Vm.note, setEntry_free]
      exact clears.free
    · intro e member
      simp only [unmapPage, Vm.note, setEntry_log, mem_cons] at member
      rcases member with rfl | old
      · refine .inr ⟨_, _, ⟨n, Nat.lt_succ_self n, rfl⟩, rfl, ?_⟩
        intro f mapped
        exact (clears.lookup_pid mapped).2
      · rcases clears.log e old with old | ⟨page, frame, ⟨i, bound, same⟩, rest⟩
        · exact .inl old
        · exact .inr ⟨page, frame, ⟨i, Nat.lt_succ_of_lt bound, same⟩, rest⟩
    · intro f
      rw [mem_append, phys]
      constructor
      · rintro (⟨frees, i, bound, mapped⟩ | new)
        · exact ⟨frees, i, Nat.lt_succ_of_lt bound, mapped⟩
        cases frees : freePhys with
        | false => simp [frees] at new
        | true =>
          have mapped : lookup w pid (pageAt base n) = some f := by simpa [frees] using new
          exact ⟨rfl, n, Nat.lt_succ_self n, (clears.lookup_pid mapped).2⟩
      · rintro ⟨frees, i, bound, mapped⟩
        rcases (split i).mp bound with earlier | rfl
        · exact .inl ⟨frees, i, earlier, mapped⟩
        by_cases again : ∃ j, j < i ∧ pageAt base i = pageAt base j
        · obtain ⟨j, earlier, same⟩ := again
          rw [same] at mapped
          exact .inl ⟨frees, j, earlier, mapped⟩
        · have kept := clears.kept pid (pageAt base i) fun both => again both.1
          rw [mapped] at kept
          exact .inr (by simp [frees, kept])
    · intro singly
      have earlier : Singly v pid fun page =>
          ∃ i, i < n ∧ page = pageAt base i := by
        rintro page f ⟨i, bound, rfl⟩ mapped
        obtain ⟨taken, only⟩ := singly _ f ⟨i, Nat.lt_succ_of_lt bound, rfl⟩ mapped
        refine ⟨taken, ?_⟩
        rintro page' ⟨j, bound', rfl⟩
        exact only _ ⟨j, Nat.lt_succ_of_lt bound', rfl⟩
      refine nodup_append.mpr ⟨distinct earlier, ?_, ?_⟩
      · split
        · cases lookup w pid (pageAt base n) <;> simp
        · exact nodup_nil
      -- the page was not among the earlier ones, so neither was its frame
      rintro f old g new rfl
      obtain ⟨frees, i, bound, mapped⟩ := (phys f).mp old
      have here : lookup w pid (pageAt base n) = some f := by simpa [frees] using new
      obtain ⟨outside, was⟩ := clears.lookup_pid here
      obtain ⟨_, only⟩ := singly _ f ⟨n, Nat.lt_succ_self n, rfl⟩ was
      exact outside ⟨i, bound, (only _ ⟨i, Nat.lt_succ_of_lt bound, rfl⟩ mapped).symm⟩

theorem freeFrames_spec (phys : List Nat) (v : Vm) : let v' := phys.foldl pmmFreeFrame v
    v'.procs = v.procs ∧
      v'.kernel = v.kernel ∧ (∀ f, v'.free f = true ↔ v.free f = true ∨ (f ∈ phys ∧ f ≠ 0)) ∧
      (∀ e ∈ v'.log, e ∈ v.log ∨ ∃ f ∈ phys, ∃ again, e = .freed f again) ∧ (phys.Nodup →
      (∀ f ∈ phys, v.free f = false) → ∀ f, .freed f true ∈ v'.log → .freed f true ∈ v.log) := by
  induction phys generalizing v with
  | nil => simp
  | cons first phys' ih =>
    obtain ⟨procs, kernel, free, log, once⟩ := ih (pmmFreeFrame v first)
    simp only [foldl_cons]
    by_cases zero : first = 0
    · have same : pmmFreeFrame v first = v := if_pos zero
      rw [same] at procs kernel free log once ⊢
      refine ⟨procs, kernel, fun f => ?_, fun e member => ?_,
        fun distinct taken => once distinct.of_cons fun f later =>
          taken f (mem_cons_of_mem _ later)⟩
      · rw [free]
        constructor
        · rintro (old | ⟨member, notZero⟩)
          · exact .inl old
          · exact .inr ⟨mem_cons_of_mem _ member, notZero⟩
        · rintro (old | ⟨member, notZero⟩)
          · exact .inl old
          rcases mem_cons.mp member with rfl | later
          · exact absurd zero notZero
          · exact .inr ⟨later, notZero⟩
      · rcases log e member with old | ⟨f, later, again, rfl⟩
        · exact .inl old
        · exact .inr ⟨f, mem_cons_of_mem _ later, again, rfl⟩
    · have freed : pmmFreeFrame v first = { v with free := update v.free first true }.note
            (.freed first (v.free first)) := if_neg zero
      rw [freed] at procs kernel free log once ⊢
      refine ⟨procs, kernel, fun f => ?_, fun e member => ?_, ?_⟩
      · rw [free]
        simp only [Vm.note, update_apply]
        by_cases here : f = first
        · subst here
          simp [zero]
        · simp [here]
      · rcases log e member with old | ⟨f, later, again, rfl⟩
        · rcases mem_cons.mp old with rfl | old
          · exact .inr ⟨first, mem_cons_self, _, rfl⟩
          · exact .inl old
        · exact .inr ⟨f, mem_cons_of_mem _ later, again, rfl⟩
      intro distinct taken f member
      obtain ⟨notLater, rest⟩ := nodup_cons.mp distinct
      have still : ∀ g ∈ phys', (update v.free first true) g = false := by
        intro g later
        have other : g ≠ first := fun same => notLater (same ▸ later)
        rw [update_of_ne other]
        exact taken g (mem_cons_of_mem _ later)
      rcases mem_cons.mp (once rest still f member) with new | old
      · simp only [Event.freed.injEq] at new
        rw [taken first mem_cons_self] at new
        exact absurd new.2 (by decide)
      · exact old

theorem Unmaps.refl (v : Vm) (pid : Nat) (freePhys : Bool) :
    Unmaps v v pid (fun _ => False) freePhys where
  procs := .refl v
  gone _ _ impossible := impossible.elim
  kept _ _ _ := rfl
  freed f := by simp
  log _ member := .inl member
  once _ _ _ member := member

theorem Unmaps.congr (unmaps : Unmaps v v' pid P freePhys)
    (same : ∀ page, P page ↔ Q page) : Unmaps v v' pid Q freePhys := by
  have equal : P = Q := funext fun page => propext (same page)
  rwa [← equal]

theorem Unmaps.trans (one : Unmaps v v' pid P freePhys) (two : Unmaps v' v'' pid Q freePhys) :
    Unmaps v v'' pid (fun page => P page ∨ Q page) freePhys := by
  have back : ∀ {page f}, lookup v' pid page = some f → ¬ P page ∧ lookup v pid page = some f := by
    intro page f found
    have outside : ¬ P page := by
      intro inside
      rw [one.gone pid page inside sees_self] at found
      cases found
    rw [one.kept pid page fun both => outside both.1] at found
    exact ⟨outside, found⟩
  constructor
  case procs => exact one.procs.trans two.procs
  case gone =>
    intro q page inside sees
    by_cases second : Q page
    · exact two.gone q page second sees
    · rw [two.kept q page fun both => second both.1]
      exact one.gone q page (inside.resolve_right second) sees
  case kept =>
    intro q page outside
    rw [two.kept q page fun both => outside ⟨.inr both.1, both.2⟩,
      one.kept q page fun both => outside ⟨.inl both.1, both.2⟩]
  case freed =>
    intro f
    rw [two.freed, one.freed]
    constructor
    · rintro ((old | ⟨frees, notZero, page, inside, mapped⟩) |
        ⟨frees, notZero, page, inside, mapped⟩)
      · exact .inl old
      · exact .inr ⟨frees, notZero, page, .inl inside, mapped⟩
      · exact .inr ⟨frees, notZero, page, .inr inside, (back mapped).2⟩
    · rintro (old | ⟨frees, notZero, page, inside, mapped⟩)
      · exact .inl (.inl old)
      by_cases first : P page
      · exact .inl (.inr ⟨frees, notZero, page, first, mapped⟩)
      refine .inr ⟨frees, notZero, page, inside.resolve_left first, ?_⟩
      rw [one.kept pid page fun both => first both.1]
      exact mapped
  case log =>
    intro e member
    rcases two.log e member with old | ⟨page, frame, inside, rfl, mapped⟩ |
      ⟨page, f, again, inside, rfl, frees, mapped⟩
    · rcases one.log e old with old | ⟨page, frame, inside, rest⟩ | ⟨page, f, again, inside, rest⟩
      · exact .inl old
      · exact .inr (.inl ⟨page, frame, .inl inside, rest⟩)
      · exact .inr (.inr ⟨page, f, again, .inl inside, rest⟩)
    · exact .inr (.inl ⟨page, frame, .inr inside, rfl, fun f found => (back (mapped f found)).2⟩)
    · exact .inr (.inr ⟨page, f, again, .inr inside, rfl, frees, (back mapped).2⟩)
  case once =>
    intro frees singly f member
    have first : Singly v pid P := by
      intro page g inside mapped
      obtain ⟨taken, only⟩ := singly page g (.inl inside) mapped
      exact ⟨taken, fun page' inside' => only page' (.inl inside')⟩
    have second : Singly v' pid Q := by
      intro page g inside mapped
      obtain ⟨outside, was⟩ := back mapped
      obtain ⟨taken, only⟩ := singly page g (.inr inside) was
      refine ⟨?_, fun page' inside' mapped' => only page' (.inr inside') (back mapped').2⟩
      rw [Bool.eq_false_iff]
      intro free
      rcases (one.freed g).mp free with old | ⟨_, _, other, inP, mapped'⟩
      · rw [taken] at old
        cases old
      · rw [only other (.inl inP) mapped'] at inP
        exact outside inP
    exact one.once frees first f (two.once frees second f member)

theorem unmapBlock_spec (v : Vm) (pid base n : Nat) (freePhys : Bool) :
    Unmaps v (unmapBlock v pid base n freePhys) pid
      (fun page => ∃ i, i < n ∧ page = pageAt base i) freePhys := by
  obtain ⟨clears, phys, distinct⟩ := unmapOne_spec v pid base n freePhys
  unfold unmapBlock
  generalize (List.range n).foldl (unmapOne pid base freePhys) (v, []) = r at clears phys distinct
  obtain ⟨w, found⟩ := r
  obtain ⟨procs, kernel, free, log, once⟩ := freeFrames_spec found w
  have same : ∀ q page, lookup (found.foldl pmmFreeFrame w) q page = lookup w q page := by
    intro q page
    unfold lookup
    rw [procs, kernel]
  constructor
  case procs =>
    intro q
    rw [procs]
    exact clears.procs q
  case gone =>
    intro q page inside sees
    rw [same]
    exact clears.gone q page inside sees
  case kept =>
    intro q page outside
    rw [same]
    exact clears.kept q page outside
  case freed =>
    intro f
    rw [free, clears.free, phys]
    constructor
    · rintro (old | ⟨⟨frees, i, bound, mapped⟩, notZero⟩)
      · exact .inl old
      · exact .inr ⟨frees, notZero, _, ⟨i, bound, rfl⟩, mapped⟩
    · rintro (old | ⟨frees, notZero, _, ⟨i, bound, rfl⟩, mapped⟩)
      · exact .inl old
      · exact .inr ⟨⟨frees, i, bound, mapped⟩, notZero⟩
  case log =>
    intro e member
    rcases log e member with old | ⟨f, inside, again, rfl⟩
    · rcases clears.log e old with old | new
      · exact .inl old
      · exact .inr (.inl new)
    · obtain ⟨frees, i, bound, mapped⟩ := (phys f).mp inside
      exact .inr (.inr ⟨_, f, again, ⟨i, bound, rfl⟩, rfl, frees, mapped⟩)
  case once =>
    intro frees singly f member
    have taken : ∀ g ∈ found, w.free g = false := by
      intro g inside
      obtain ⟨_, i, bound, mapped⟩ := (phys g).mp inside
      rw [clears.free]
      exact (singly _ g ⟨i, bound, rfl⟩ mapped).1
    rcases clears.log _ (once (distinct singly) taken f member) with old | ⟨_, _, _, impossible, _⟩
    · exact old
    · cases impossible

theorem pageAt_pageAt (virt start i : Nat) :
    pageAt (pageAt virt start) i = pageAt virt (start + i) := by
  simp only [pageAt, add32, mul32, wordSize, pageSize]
  omega

theorem unmapLoop_spec {turns : Nat} (start : Nat) (v : Vm) (pid virt pages : Nat) (freePhys : Bool)
    (enough : pages ≤ turns + start) :
    Unmaps v (unmapLoop pid virt pages freePhys turns start v) pid
      (fun page => ∃ i, start ≤ i ∧ i < pages ∧ page = pageAt virt i) freePhys := by
  induction turns generalizing start v with
  | zero =>
    refine (Unmaps.refl v pid freePhys).congr fun page => ⟨False.elim, ?_⟩
    rintro ⟨i, low, high, _⟩
    omega
  | succ _ ih =>
    rw [unmapLoop]
    split
    · next ended =>
        refine (Unmaps.refl v pid freePhys).congr fun page => ⟨False.elim, ?_⟩
        rintro ⟨i, low, high, _⟩
        omega
    next more =>
      have block := unmapBlock_spec v pid (pageAt virt start) (min (pages - start) 64) freePhys
      have rest := ih (start + min (pages - start) 64)
        (unmapBlock v pid (pageAt virt start) (min (pages - start) 64) freePhys) (by omega)
      refine (block.trans rest).congr fun page => ⟨?_, ?_⟩
      · rintro (⟨i, bound, rfl⟩ | ⟨i, low, high, rfl⟩)
        · exact ⟨start + i, by omega, by omega, pageAt_pageAt _ _ _⟩
        · exact ⟨i, by omega, high, rfl⟩
      · rintro ⟨i, low, high, rfl⟩
        by_cases near : i < start + min (pages - start) 64
        · refine .inl ⟨i - start, by omega, ?_⟩
          rw [pageAt_pageAt, Nat.add_sub_cancel' low]
        · exact .inr ⟨i, by omega, high, rfl⟩

theorem unmapUserRange_spec (v : Vm) (pid virt pages : Nat) (freePhys : Bool) :
    Unmaps v (unmapUserRange v pid virt pages freePhys) pid
      (fun page => ∃ i, i < pages ∧ page = pageAt virt i) freePhys := by
  refine (unmapLoop_spec 0 v pid virt pages freePhys (le_refl _)).congr fun page => ?_
  simp

theorem Unmaps.lookup_some (unmaps : Unmaps v v' pid P freePhys)
    {q page f : Nat} (found : lookup v' q page = some f) :
    ¬ (P page ∧ Sees pid q page) ∧ lookup v q page = some f := by
  have outside : ¬ (P page ∧ Sees pid q page) := by
    intro inside
    rw [unmaps.gone q page inside.1 inside.2] at found
    cases found
  rw [unmaps.kept q page outside] at found
  exact ⟨outside, found⟩

end Unmapping

/-! ### Mapping -/

/-- The pages `first` to `last` of the range at `virt` are mapped, each to a
frame that was free. -/
structure Maps (v v' : Vm) (pid virt first last : Nat) : Prop where
  procs : SameProcs v v'
  shown : ∀ q i, first ≤ i → i < last → Sees pid q (pageAt virt i) →
    ∃ f, lookup v' q (pageAt virt i) = some f ∧ v.free f = true ∧ f ≠ 0
  kept : ∀ q page, ¬ ((∃ i, first ≤ i ∧ i < last ∧ page = pageAt virt i) ∧ Sees pid q page) →
    lookup v' q page = lookup v q page
  free : ∀ f, v'.free f = true → v.free f = true
  taken : ∀ f, v.free f = true → v'.free f = false →
    ∃ i, first ≤ i ∧ i < last ∧ .mapped pid (pageAt virt i) f ∈ v'.log
  log : ∀ e ∈ v'.log, e ∈ v.log ∨ ∃ i f, first ≤ i ∧ i < last ∧
    e = .mapped pid (pageAt virt i) f ∧ v.free f = true
  grows : ∀ e ∈ v.log, e ∈ v'.log

section Mapping

variable {v v' : Vm} {pid virt : Nat}

theorem Maps.none (v : Vm) (pid virt i : Nat) : Maps v v pid virt i i where
  procs := .refl v
  shown _ _ low high := absurd high (Nat.not_lt.mpr low)
  kept _ _ _ := rfl
  free _ free := free
  taken f free taken := by simp [free] at taken
  log _ member := .inl member
  grows _ member := member

theorem Maps.one {i frame : Nat} (free : v.free frame = true) (notZero : frame ≠ 0) :
    Maps v (mapPage { v with free := update v.free frame false } pid
      (pageAt virt i) frame) pid virt i (i + 1) := by
  have view : ∀ q page, lookup (mapPage { v with free := update v.free frame false } pid
        (pageAt virt i) frame) q page =
      if page = pageAt virt i ∧ Sees pid q (pageAt virt i) then some frame
      else lookup v q page := by
    intro q page
    exact lookup_setEntry
  constructor
  case procs => exact setEntry_procs
  case shown =>
    intro q k low high sees
    obtain rfl : k = i := by omega
    refine ⟨frame, ?_, free, notZero⟩
    rw [view, if_pos ⟨rfl, sees⟩]
  case kept =>
    intro q page outside
    rw [view, if_neg]
    rintro ⟨rfl, sees⟩
    exact outside ⟨⟨i, le_refl i, Nat.lt_succ_self i, rfl⟩, sees⟩
  case free =>
    intro f still
    simp only [mapPage, Vm.note, setEntry_free, update_apply] at still
    split at still
    · cases still
    · exact still
  case taken =>
    intro f was gone
    simp only [mapPage, Vm.note, setEntry_free, update_apply] at gone
    split at gone
    · next same =>
        subst same
        exact ⟨i, le_refl i, Nat.lt_succ_self i, mem_cons_self⟩
    · rw [was] at gone
      cases gone
  case log =>
    intro e member
    simp only [mapPage, Vm.note, setEntry_log, mem_cons] at member
    rcases member with rfl | old
    · exact .inr ⟨i, frame, le_refl i, Nat.lt_succ_self i, rfl, free⟩
    · exact .inl old
  case grows =>
    intro e member
    simp only [mapPage, Vm.note, setEntry_log]
    exact mem_cons_of_mem _ member

theorem Maps.trans {v'' : Vm} {i last : Nat} (one : Maps v v' pid virt i (i + 1))
    (rest : Maps v' v'' pid virt (i + 1) last) (le : i + 1 ≤ last) :
    Maps v v'' pid virt i last := by
  constructor
  case procs => exact one.procs.trans rest.procs
  case shown =>
    intro q k low high sees
    by_cases again : (∃ j, i + 1 ≤ j ∧ j < last ∧ pageAt virt k = pageAt virt j)
    · obtain ⟨j, jlow, jhigh, same⟩ := again
      rw [same] at sees ⊢
      obtain ⟨f, found, free, notZero⟩ := rest.shown q j jlow jhigh sees
      exact ⟨f, found, one.free f free, notZero⟩
    · have first : k = i := by
        by_contra other
        exact again ⟨k, by omega, high, rfl⟩
      subst first
      obtain ⟨f, found, free, notZero⟩ := one.shown q k (le_refl k) (Nat.lt_succ_self k) sees
      refine ⟨f, ?_, free, notZero⟩
      rw [rest.kept q _ fun both => again both.1]
      exact found
  case kept =>
    intro q page outside
    rw [rest.kept q page, one.kept q page]
    · rintro ⟨⟨j, low, high, same⟩, sees⟩
      exact outside ⟨⟨j, low, by omega, same⟩, sees⟩
    · rintro ⟨⟨j, low, high, same⟩, sees⟩
      exact outside ⟨⟨j, by omega, high, same⟩, sees⟩
  case free => exact fun f still => one.free f (rest.free f still)
  case taken =>
    intro f was gone
    cases between : v'.free f with
    | false =>
      obtain ⟨j, low, high, member⟩ := one.taken f was between
      exact ⟨j, low, by omega, rest.grows _ member⟩
    | true =>
      obtain ⟨j, low, high, member⟩ := rest.taken f between gone
      exact ⟨j, by omega, high, member⟩
  case log =>
    intro e member
    rcases rest.log e member with old | ⟨j, f, low, high, same, free⟩
    · rcases one.log e old with old | ⟨j, f, low, high, same, free⟩
      · exact .inl old
      · exact .inr ⟨j, f, low, by omega, same, free⟩
    · exact .inr ⟨j, f, by omega, high, same, one.free f free⟩
  case grows => exact fun e member => rest.grows e (one.grows e member)

theorem mapRange_spec {left i mapped : Nat} {grants : List Nat} {all : Bool}
    (result : mapRange pid virt left i grants v = some (v', mapped, all)) :
    Maps v v' pid virt i mapped ∧ i ≤ mapped ∧ mapped = i + min left grants.length ∧
      (all = true → mapped = i + left) ∧ (all = false → mapped < i + left) := by
  induction left generalizing i grants v with
  | zero =>
    simp only [mapRange, Option.some.injEq, Prod.mk.injEq] at result
    obtain ⟨rfl, rfl, rfl⟩ := result
    exact ⟨Maps.none v pid virt i, le_refl i, by simp, fun _ => rfl,
      fun impossible => by cases impossible⟩
  | succ _ ih =>
    cases grants with
    | nil =>
      simp only [mapRange, Option.some.injEq, Prod.mk.injEq] at result
      obtain ⟨rfl, rfl, rfl⟩ := result
      exact ⟨Maps.none v pid virt i, le_refl i, by simp,
        fun impossible => (by cases impossible), fun _ => by omega⟩
    | cons =>
      rw [mapRange] at result
      split at result
      · next granted =>
          obtain ⟨rest, le, count, whole, short⟩ := ih result
          refine ⟨(Maps.one granted.1 granted.2).trans rest le,
            by omega, ?_, fun all => ?_, fun all => ?_⟩
          · simp only [length_cons]
            omega
          · have := whole all
            omega
          · have := short all
            omega
      · cases result

end Mapping

end MainDob.Kernel.UserMem
