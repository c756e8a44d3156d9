/-
Purpose: The DMA reserve over whole runs: the runs it has handed out share no
  page and stay inside it, its counter is the number of free pages, the search
  is best-fit, and a free clears the pages of its range and no others.
Trusted boundary: none beyond MainDob.Kernel.DmaPool
Main exports: findRun_spec, dmaPoolInit_base, dma_pool_contract
-/
import MainDob.Kernel.DmaPool
import MainDob.Proofs.PmmContract

namespace MainDob.Kernel.DmaPool

open Lib Lib.Gaps
open List Function

/-! ### The bitmap -/

@[simp] theorem pageUsed_set (p : Pool) (idx page : Nat) :
    pageUsed (pageSet p idx) page = (decide (page = idx) || pageUsed p page) := by
  unfold pageUsed pageSet
  by_cases sameWord : page / 32 = idx / 32
  · have bit : page % 32 = idx % 32 ↔ page = idx := by omega
    simp only [sameWord, update_self]
    rw [getLsbD_or_bit _ _ (Nat.mod_lt _ (by decide)), decide_eq_decide.mpr bit]
  · have different : page ≠ idx := by
      rintro rfl
      exact sameWord rfl
    simp [update_of_ne sameWord, different]

@[simp] theorem pageUsed_clear (p : Pool) (idx page : Nat) :
    pageUsed (pageClear p idx) page = (decide (page ≠ idx) && pageUsed p page) := by
  unfold pageUsed pageClear
  by_cases sameWord : page / 32 = idx / 32
  · have bit : page % 32 ≠ idx % 32 ↔ page ≠ idx := by omega
    simp only [sameWord, update_self]
    rw [getLsbD_and_not_bit _ _ (Nat.mod_lt _ (by decide)), decide_eq_decide.mpr bit]
  · have different : page ≠ idx := by
      rintro rfl
      exact sameWord rfl
    simp [update_of_ne sameWord, different]

theorem setRun_base (start count : Nat) (p : Pool) :
    (setRun start count p).basePhys = p.basePhys := by
  induction count with
  | zero => rfl
  | succ _ ih => exact ih

theorem pageUsed_setRun (start count : Nat) (p : Pool) (page : Nat) :
    pageUsed (setRun start count p) page =
      (decide (start ≤ page ∧ page < start + count) || pageUsed p page) := by
  induction count with
  | zero => rw [setRun, decide_eq_false (by omega), Bool.false_or]
  | succ _ ih =>
    rw [setRun, pageUsed_set, ih, ← Bool.or_assoc, ← Bool.decide_or]
    congr 2
    exact propext (by omega)

theorem freeCount_setRun {start count : Nat} {p : Pool} (free : AllFree (pageUsed p) start count)
    (inside : start + count ≤ dmaPoolPages) : freeCount (pageUsed
    (setRun start count p)) dmaPoolPages + count = freeCount (pageUsed p) dmaPoolPages := by
  induction count with
  | zero => rw [setRun, add_zero]
  | succ count ih =>
    have shorter := ih (fun i below => free i (by omega)) (by omega)
    have last : pageUsed (setRun start count p) (start + count) = false := by
      rw [pageUsed_setRun, free count (by omega)]
      simp
    have inside : start + count < dmaPoolPages := by omega
    have one := freeCount_take inside last (pageUsed_set (setRun start count p) (start + count))
    rw [setRun]
    omega

theorem releasePage_spec (p : Pool) (idx : Nat) (inside : idx < dmaPoolPages)
    (counted : p.free = freeCount (pageUsed p) dmaPoolPages) :
    (∀ page, pageUsed (releasePage p idx) page = (decide (page ≠ idx) && pageUsed p page)) ∧
    (releasePage p idx).basePhys = p.basePhys ∧ (releasePage p idx).free = freeCount (pageUsed
    (releasePage p idx)) dmaPoolPages ∧ (pageUsed p idx = false → releasePage p idx = p) := by
  unfold releasePage
  cases here : pageUsed p idx with
  | false =>
    refine ⟨fun page => ?_, rfl, counted, fun _ => rfl⟩
    by_cases same : page = idx
    · simp [same, here]
    · simp [same]
  | true =>
    have after : ∀ page, pageUsed { pageClear p idx with free := (p.free + 1) % wordSize } page =
        (decide (page ≠ idx) && pageUsed p page) := pageUsed_clear p idx
    have more := freeCount_release inside here after
    have bound := freeCount_le (pageUsed { pageClear p idx with
      free := (p.free + 1) % wordSize }) dmaPoolPages
    refine ⟨after, rfl, ?_, nofun⟩
    simp only [if_true] at more bound ⊢
    rw [more, counted]
    refine Nat.mod_eq_of_lt ?_
    rw [more] at bound
    exact bound.trans_lt (by decide)

theorem releaseRun_spec (start count : Nat) (p : Pool) (inside : start + count ≤ dmaPoolPages)
    (counted : p.free = freeCount (pageUsed p) dmaPoolPages) :
    (∀ page, pageUsed (releaseRun start count p) page =
      (!decide (start ≤ page ∧ page < start + count) && pageUsed p page)) ∧
    (releaseRun start count p).basePhys = p.basePhys ∧
    (releaseRun start count p).free = freeCount (pageUsed (releaseRun start count p)) dmaPoolPages ∧
    (AllFree (pageUsed p) start count → releaseRun start count p = p) := by
  induction count with
  | zero =>
    refine ⟨fun page => ?_, rfl, counted, fun _ => rfl⟩
    rw [releaseRun, decide_eq_false (by omega), Bool.not_false, Bool.true_and]
  | succ count ih =>
    obtain ⟨used, base, free, idle⟩ := ih (by omega)
    obtain ⟨used', base', free', idle'⟩ :=
      releasePage_spec (releaseRun start count p) (start + count) (by omega) free
    rw [releaseRun]
    refine ⟨fun page => ?_, base'.trans base, free', fun loose => ?_⟩
    · rw [used', used, ← Bool.and_assoc, ← decide_not, ← Bool.decide_and, ← decide_not]
      congr 2
      exact propext (by omega)
    · have same := idle fun i below => loose i (by omega)
      rw [idle', same]
      rw [same]
      exact loose count (by omega)

/-! ### The search -/

/-- Of the gaps that end before `bound`, `best` is the start of a smallest one
that fits, or none fits. -/
def BestOf (p : Pool) (n bound best bestLen : Nat) : Prop :=
  (best = dmaPoolPages ∧ bestLen = dmaPoolPages + 1 ∧
    ∀ first count, Gap (pageUsed p) dmaPoolPages first count →
      first + count < bound → count < n) ∨
  (Gap (pageUsed p) dmaPoolPages best bestLen ∧ n ≤ bestLen ∧
    ∀ first count, Gap (pageUsed p) dmaPoolPages first count →
      first + count < bound → n ≤ count → bestLen ≤ count)

/-- What the loop of `find_run` knows before round `i`: the `run` pages before
`i` are free and begin behind a page in use or at the edge, and `best` is the
best of the gaps that have ended. -/
structure Scanned (p : Pool) (n i run best bestLen : Nat) : Prop where
  within : run ≤ i
  free : AllFree (pageUsed p) (i - run) run
  start : i - run = 0 ∨ pageUsed p (i - run - 1) = true
  best : BestOf p n i best bestLen

/-- What `find_run` returns: the best of all gaps. -/
def Fits (p : Pool) (n result : Nat) : Prop :=
  ∃ length, BestOf p n (dmaPoolPages + 1) result length

section Search

variable {p : Pool} {n i run best bestLen : Nat}

theorem BestOf.widen {bound bound' : Nat} (known : BestOf p n bound best bestLen)
    (others : ∀ first count, Gap (pageUsed p) dmaPoolPages first count →
      first + count < bound' → n ≤ count → bestLen ≤ dmaPoolPages + 1 →
      first + count < bound ∨ bestLen ≤ count) : BestOf p n bound' best bestLen := by
  rcases known with ⟨start, length, nothing⟩ | ⟨gap, fits, least⟩
  · refine .inl ⟨start, length, fun first count gap below => ?_⟩
    by_contra long
    rcases others first count gap below (by omega) (by omega) with
      before | large
    · exact long (nothing first count gap before)
    · have inside := gap.inside
      omega
  · refine .inr ⟨gap, fits, fun first count other below enough => ?_⟩
    have inside := gap.inside
    rcases others first count other below enough (by omega) with
      before | large
    · exact least first count other before enough
    · exact large

section

variable (scanned : Scanned p n i run best bestLen)
include scanned

theorem Scanned.gap_at {first count : Nat} (gap : Gap (pageUsed p) dmaPoolPages first count)
    (ends : first + count = i) : first = i - run ∧ count = run := by
  have within := scanned.within
  exact gap.unique_end scanned.free scanned.start (by omega)

theorem Scanned.closes (some : 0 < run) (inside : i ≤ dmaPoolPages) (stops : ¬
    (i < dmaPoolPages ∧ pageUsed p i = false)) : Gap (pageUsed p) dmaPoolPages (i - run) run := by
  have within := scanned.within
  refine { some := some, inside := by omega, free := scanned.free,
           before := scanned.start, behind := ?_ }
  rw [Nat.sub_add_cancel within]
  by_cases edge : i = dmaPoolPages
  · exact .inl edge
  refine .inr ?_
  by_contra free
  exact stops ⟨by omega, by simpa using free⟩

theorem Scanned.longer (inside : i < dmaPoolPages)
    (loose : pageUsed p i = false) : Scanned p n (i + 1) (run + 1) best bestLen := by
  have within := scanned.within
  refine { within := by omega, free := ?_, start := ?_, best := ?_ }
  · intro j below
    rw [show i + 1 - (run + 1) + j = i - run + j by omega]
    rcases Nat.lt_succ_iff_lt_or_eq.mp below with inner | last
    · exact scanned.free j inner
    · rw [last, Nat.sub_add_cancel within]
      exact loose
  · rw [show i + 1 - (run + 1) = i - run by omega]
    exact scanned.start
  · refine scanned.best.widen fun first count gap below _ _ => ?_
    rcases Nat.lt_succ_iff_lt_or_eq.mp below with before | here
    · exact .inl before
    -- no gap ends at a free page of the pool
    exfalso
    rcases gap.behind with edge | blocked
    · omega
    · rw [here, loose] at blocked
      cases blocked

end

theorem Scanned.fresh {best bestLen : Nat} (inside : i < dmaPoolPages)
    (stops : ¬ (i < dmaPoolPages ∧ pageUsed p i = false)) (next : BestOf p n (i + 1) best bestLen) :
    Scanned p n (i + 1) 0 best bestLen where
  within := Nat.zero_le _
  free := fun j below => absurd below (Nat.not_lt_zero j)
  start := by
    refine .inr ?_
    by_contra free
    exact stops ⟨inside, by simpa using free⟩
  best := next

theorem Scanned.better (scanned : Scanned p n i run best bestLen) (positive : 0 < n)
    (inside : i ≤ dmaPoolPages) (stops : ¬ (i < dmaPoolPages ∧ pageUsed p i = false))
    (candidate : n ≤ run ∧ run < bestLen) : BestOf p n (i + 1) (i - run) run := by
  refine .inr ⟨scanned.closes (by omega) inside stops, candidate.1, ?_⟩
  intro first count gap below enough
  rcases Nat.lt_succ_iff_lt_or_eq.mp below with before | here
  · rcases scanned.best with ⟨_, _, nothing⟩ | ⟨_, _, least⟩
    · have short := nothing first count gap before
      omega
    · have bound := least first count gap before enough
      omega
  · exact (scanned.gap_at gap here).2.ge

theorem Scanned.kept (scanned : Scanned p n i run best bestLen)
    (refused : ¬ (n ≤ run ∧ run < bestLen)) : BestOf p n (i + 1) best bestLen := by
  refine scanned.best.widen fun first count gap below enough _ => ?_
  rcases Nat.lt_succ_iff_lt_or_eq.mp below with before | here
  · exact .inl before
  · have same := (scanned.gap_at gap here).2
    exact .inr (by omega)

theorem findRunFrom_spec (positive : 0 < n) (left : Nat) :
    ∀ {i run best bestLen}, left + i = dmaPoolPages + 1 →
    Scanned p n i run best bestLen → Fits p n (findRunFrom p n left i run best bestLen) := by
  induction left with
  | zero =>
    intro i run best bestLen ends scanned
    have bound : i = dmaPoolPages + 1 := by omega
    exact ⟨bestLen, bound ▸ scanned.best⟩
  | succ left ih =>
    intro i run best bestLen ends scanned
    have inside : i ≤ dmaPoolPages := by omega
    rw [findRunFrom]
    split
    · rename_i loose
      exact ih (by omega) (scanned.longer loose.1 loose.2)
    rename_i stops
    -- the round at the edge is the last one
    have goOn : ∀ {best' bestLen'}, BestOf p n (i + 1) best' bestLen' →
        Fits p n (findRunFrom p n left (i + 1) 0 best' bestLen') := by
      intro best' bestLen' next
      rcases lt_or_ge i dmaPoolPages with below | edge
      · exact ih (by omega) (.fresh below stops next)
      have bound : i = dmaPoolPages := by omega
      rw [show left = 0 by omega, findRunFrom]
      exact ⟨bestLen', bound ▸ next⟩
    split
    · rename_i candidate
      have next := scanned.better positive inside stops candidate
      split
      · rename_i fitting
        refine ⟨run, .inr ⟨scanned.closes (by omega) inside stops,
          candidate.1, fun other length _ _ enough => fitting ▸ enough⟩⟩
      · exact goOn next
    · rename_i refused
      exact goOn (scanned.kept refused)

theorem findRun_spec (positive : 0 < n) : (findRun p n = dmaPoolPages ∧ ∀ first count,
      Gap (pageUsed p) dmaPoolPages first count → count < n) ∨
    ∃ count, Gap (pageUsed p) dmaPoolPages (findRun p n) count ∧ n ≤ count ∧
      ∀ other length, Gap (pageUsed p) dmaPoolPages other length → n ≤ length → count ≤ length := by
  have start : Scanned p n 0 0 dmaPoolPages (dmaPoolPages + 1) :=
    { within := le_rfl
      free := fun j below => absurd below (Nat.not_lt_zero j)
      start := .inl rfl
      best := .inl ⟨rfl, rfl, fun first count gap below => absurd below (Nat.not_lt_zero _)⟩ }
  have all : ∀ {first count}, Gap (pageUsed p) dmaPoolPages first count →
      first + count < dmaPoolPages + 1 := fun gap =>
    Nat.lt_succ_of_le gap.inside
  obtain ⟨length, ⟨at_, _, nothing⟩ | ⟨gap, fits, least⟩⟩ :=
    findRunFrom_spec positive (dmaPoolPages + 1) (by omega) start
  · exact .inl ⟨at_, fun first count gap => nothing first count gap (all gap)⟩
  · exact .inr ⟨length, gap, fits, fun first count other => least first count other (all other)⟩

theorem no_gap_iff (positive : 0 < n) : (∀ first count, Gap (pageUsed p) dmaPoolPages first count →
    count < n) ↔ ∀ first, first + n ≤ dmaPoolPages → ¬ AllFree (pageUsed p) first n := by
  constructor
  · intro nothing first inside free
    obtain ⟨low, length, gap, below, above⟩ := free.gap positive inside
    have short := nothing low length gap
    omega
  · intro nothing first count gap
    by_contra long
    have inside := gap.inside
    refine nothing first (by omega) fun i below => gap.free i (by omega)

end Search

/-! ### Boot -/

theorem dmaPoolInit_base (rawTop : BitVec 32) (frames : Pmm.State) :
    (dmaPoolInit rawTop frames).basePhys = 0 ∨
      (dmaPoolInit rawTop frames).basePhys + dmaPoolPages * pageSize ≤ 0x10000000 := by
  have limit : Pmm.addrToFrame directMapLimit = 65536 := by decide
  have dma : Pmm.addrToFrame Pmm.pmmDmaLimit = 4096 := by decide
  rcases Pmm.pmmAllocContiguous_cases (z := Pmm.measureUsableRam rawTop directMapLimit) 1024#32
    Pmm.pmmZonePreferLow frames with
    nothing | ⟨zone, member, base, run, inside, outcome⟩
  · refine .inl ?_
    unfold dmaPoolInit
    rw [nothing]
    rfl
  refine .inr ?_
  have last : base + 1023 < zone.stop (Pmm.measureUsableRam rawTop directMapLimit) :=
    (run 1023 (by decide)).1.2
  have top : base + 1023 < 65536 := by
    cases zone <;>
      simp only [Pmm.Zone.stop, Pmm.measureUsableRam, limit, dma] at last <;>
      omega
  have addr : (Pmm.frameToAddr base).toNat = base * 4096 := by
    unfold Pmm.frameToAddr Pmm.pageShift
    simp only [BitVec.toNat_shiftLeft, BitVec.toNat_ofNat, Nat.shiftLeft_eq]
    omega
  unfold dmaPoolInit
  dsimp only
  rw [outcome, addr]
  simp only [dmaPoolPages, pageSize]
  omega

theorem dmaPoolInit_counted (rawTop : BitVec 32) (frames : Pmm.State) : dmaPoolFreePages
    (dmaPoolInit rawTop frames) = if (dmaPoolInit rawTop frames).basePhys = 0 then 0
      else freeCount (pageUsed (dmaPoolInit rawTop frames)) dmaPoolPages := by
  have all : freeCount (pageUsed (dmaPoolInit rawTop frames)) dmaPoolPages = dmaPoolPages := by
    unfold freeCount
    rw [Finset.filter_true_of_mem, Finset.card_range]
    intro page _
    simp [dmaPoolInit, pageUsed]
  rw [all, dmaPoolFreePages]
  by_cases off : (dmaPoolInit rawTop frames).basePhys = 0
  · rw [if_pos off, if_neg (not_not.mpr off)]
  rw [if_neg off, if_pos off]
  refine if_neg fun none => off ?_
  simp [dmaPoolInit, none]

/-- What every call keeps. -/
structure Sound (s : State) : Prop where
  accounts : Accounts s
  base : s.pool.basePhys = 0 ∨ s.pool.basePhys + dmaPoolPages * pageSize ≤ 0x10000000

theorem Sound.initial (rawTop : BitVec 32) (frames : Pmm.State) :
    Sound (State.initial rawTop frames) where
  accounts :=
    { disjoint := .nil
      inside := nofun
      used := by
        intro page
        constructor
        · intro used
          simp [State.initial, dmaPoolInit, pageUsed] at used
        · rintro ⟨_, held, _⟩
          cases held
      counted := dmaPoolInit_counted rawTop frames }
  base := dmaPoolInit_base rawTop frames

section Calls

variable {s s' : State} {action : Action} {pages phys : Nat}

theorem Sound.free_eq (sound : Sound s) (present : s.pool.basePhys ≠ 0) :
    s.pool.free = freeCount (pageUsed s.pool) dmaPoolPages := by
  have counted := sound.accounts.counted
  rwa [dmaPoolFreePages, if_pos present, if_neg present] at counted

theorem Sound.alloc_cases (sound : Sound s) (pages : Nat) :
    (dmaPoolAlloc s.pool pages = (0, s.pool) ∧
      (s.pool.basePhys = 0 ∨ pages = 0 ∨ ∀ first, first + pages ≤ dmaPoolPages →
        ¬ AllFree (pageUsed s.pool) first pages)) ∨
    (s.pool.basePhys ≠ 0 ∧ pages ≠ 0 ∧ ∃ first count,
      Gap (pageUsed s.pool) dmaPoolPages first count ∧ pages ≤ count ∧
      (∀ other length, Gap (pageUsed s.pool) dmaPoolPages other length →
        pages ≤ length → count ≤ length) ∧
      dmaPoolAlloc s.pool pages = (s.pool.basePhys + first * pageSize,
          { setRun first pages s.pool with free := s.pool.free - pages })) := by
  unfold dmaPoolAlloc
  split
  · rename_i refused
    refine .inl ⟨rfl, refused.imp_right (Or.imp_right fun large first inside => ?_)⟩
    omega
  rename_i valid
  simp only [not_or] at valid
  obtain ⟨present, some, small⟩ := valid
  have positive : 0 < pages := Nat.pos_of_ne_zero some
  rcases findRun_spec (p := s.pool) positive with
    ⟨full, nothing⟩ | ⟨count, gap, fits, least⟩
  · rw [if_pos full]
    exact .inl ⟨rfl, .inr (.inr ((no_gap_iff positive).mp nothing))⟩
  have inside := gap.inside
  rw [if_neg (by omega)]
  refine .inr ⟨present, some, _, count, gap, fits, least, ?_⟩
  have run : AllFree (pageUsed s.pool) (findRun s.pool pages) pages :=
    fun i below => gap.free i (by omega)
  have less := freeCount_setRun run (by omega)
  have bound := freeCount_le (pageUsed s.pool) dmaPoolPages
  have counted := sound.free_eq present
  have base := sound.base.resolve_left present
  have word : (s.pool.free + wordSize - pages) % wordSize = s.pool.free - pages := by
    simp only [dmaPoolPages, wordSize] at *
    omega
  have addr : (s.pool.basePhys + findRun s.pool pages * pageSize) % wordSize =
      s.pool.basePhys + findRun s.pool pages * pageSize := by
    simp only [dmaPoolPages, pageSize, wordSize] at *
    omega
  rw [word, addr]

theorem Sound.allocContract (sound : Sound s) (pages : Nat) :
    AllocContract s.pool pages (dmaPoolAlloc s.pool pages).1 (dmaPoolAlloc s.pool pages).2 := by
  rcases sound.alloc_cases pages with
    ⟨failed, why⟩ | ⟨present, some, first, count, gap, fits, least, taken⟩
  · rw [failed]
    exact
      { fails := ⟨fun _ => why, fun _ => rfl⟩
        keeps := fun _ => rfl
        bestFit := fun found => absurd rfl found }
  rw [taken]
  have address : s.pool.basePhys + first * pageSize ≠ 0 := by omega
  have inside := gap.inside
  refine
    { fails := ⟨fun none => absurd none address, fun why => ?_⟩
      keeps := fun none => absurd none address
      bestFit := fun _ => ⟨first, count, rfl, gap, fits, least, fun page => ?_⟩ }
  · rcases why with off | none | nothing
    · exact absurd off present
    · exact absurd none some
    · exact absurd (fun i below => gap.free i (by omega)) (nothing first (by omega))
  · change pageUsed (setRun first pages s.pool) page = true ↔ _
    rw [pageUsed_setRun, Bool.or_eq_true, decide_eq_true_iff]
    exact or_comm

theorem pageAt_start (p : Pool) (first : Nat) :
    pageAt p (p.basePhys + first * pageSize) = first := by
  simp [pageAt, pageSize]

theorem Sound.alloc (sound : Sound s) (taken : exec s (.alloc pages) = some s') : Sound s' := by
  simp only [exec] at taken
  rcases sound.alloc_cases pages with
    ⟨failed, _⟩ | ⟨present, some, first, count, gap, fits, _, found⟩
  · rw [failed] at taken
    cases taken
    exact sound
  rw [found] at taken
  rw [if_neg (by omega), pageAt_start] at taken
  cases taken
  have inside := gap.inside
  have run : AllFree (pageUsed s.pool) first pages := fun i below => gap.free i (by omega)
  have fresh : ∀ page ∈ List.range' first pages, pageUsed s.pool page = false := by
    intro page held
    obtain ⟨i, below, rfl⟩ := mem_range'.mp held
    simpa using run i below
  have used : ∀ page, pageUsed { setRun first pages s.pool with free := s.pool.free - pages } page =
      (decide (first ≤ page ∧ page < first + pages) ||
        pageUsed s.pool page) := pageUsed_setRun first pages s.pool
  constructor
  · constructor
    case disjoint =>
      refine pairwise_cons.mpr ⟨fun other held => ?_, sound.accounts.disjoint⟩
      intro page mine theirs
      have busy := (sound.accounts.used page).mpr ⟨other, held, theirs⟩
      rw [fresh page mine] at busy
      cases busy
    case inside =>
      intro other held page mine
      rcases mem_cons.mp held with rfl | old
      · have bounds := mem_range'_1.mp mine
        omega
      · exact sound.accounts.inside other old page mine
    case used =>
      intro page
      rw [used, Bool.or_eq_true, decide_eq_true_iff, sound.accounts.used, ← mem_range'_1]
      simp
    case counted =>
      have less := freeCount_setRun run (by omega)
      have counted := sound.free_eq present
      have off : (setRun first pages s.pool).basePhys ≠ 0 := by
        rw [setRun_base]
        exact present
      simp only [dmaPoolFreePages]
      rw [if_pos off, if_neg off]
      change _ = freeCount (pageUsed (setRun first pages s.pool)) _
      omega
  · change (setRun first pages s.pool).basePhys = 0 ∨ (setRun first pages s.pool).basePhys + _ ≤ _
    rw [setRun_base]
    exact sound.base

/-- A range of the pool, as `dma_pool_free` sees it. -/
def Ours (p : Pool) (phys pages : Nat) : Prop :=
  p.basePhys ≠ 0 ∧ p.basePhys ≤ phys ∧
    phys + pages * pageSize ≤ p.basePhys + dmaPoolPages * pageSize

section

variable (sound : Sound s) (ends : phys + pages * pageSize < wordSize)
include sound ends

theorem Sound.free_cases :
    (dmaPoolFree s.pool phys pages = some (false, s.pool) ∧ ¬ Ours s.pool phys pages) ∨
    (dmaPoolFree s.pool phys pages = some (true, releaseRun (pageAt s.pool phys) pages s.pool) ∧
      Ours s.pool phys pages ∧ pageAt s.pool phys + pages ≤ dmaPoolPages) := by
  unfold dmaPoolFree Ours
  split
  · rename_i refused
    refine .inl ⟨rfl, ?_⟩
    rintro ⟨present, above, below⟩
    have base := sound.base.resolve_left present
    simp only [dmaPoolPages, pageSize, wordSize] at *
    omega
  · rename_i accepted
    simp only [not_or] at accepted
    obtain ⟨present, above, below⟩ := accepted
    have range : phys + pages * pageSize ≤ s.pool.basePhys + dmaPoolPages * pageSize := by
      simp only [dmaPoolPages, pageSize, wordSize] at *
      omega
    have inside : pageAt s.pool phys + pages ≤ dmaPoolPages := by
      simp only [pageAt, dmaPoolPages, pageSize] at *
      omega
    refine .inr ⟨?_, ⟨present, by omega, range⟩, inside⟩
    exact if_neg (Nat.not_lt.mpr inside)

theorem Sound.freeContract : ∃ ours p', dmaPoolFree s.pool phys pages = some (ours, p') ∧
      FreeContract s.pool phys pages ours p' := by
  rcases sound.free_cases ends with ⟨refused, foreign⟩ | ⟨freed, ours, inside⟩
  · refine ⟨_, _, refused, ?_⟩
    exact
      { range := ⟨fun ours => (nomatch ours), fun ours => absurd ours foreign⟩
        cleared := nofun
        foreign := fun _ => rfl
        idle := fun _ => rfl }
  · obtain ⟨used, _, _, idle⟩ := releaseRun_spec (pageAt s.pool phys) pages
      s.pool inside (sound.free_eq ours.1)
    refine ⟨_, _, freed, ?_⟩
    refine
      { range := ⟨fun _ => ours, fun _ => rfl⟩
        cleared := fun _ page => ?_
        foreign := nofun
        idle := idle }
    rw [used, Bool.and_eq_true, Bool.not_eq_true', decide_eq_false_iff_not]
    exact and_comm

theorem Sound.free (taken : exec s (.free phys pages) = some s') : Sound s' := by
  simp only [exec] at taken
  rcases sound.free_cases ends with ⟨refused, _⟩ | ⟨freed, ours, inside⟩
  · rw [refused] at taken
    cases taken
    exact sound
  rw [freed] at taken
  simp only [Option.map_some, if_true, Option.some.injEq] at taken
  subst taken
  obtain ⟨used, base, counted, _⟩ := releaseRun_spec (pageAt s.pool phys)
    pages s.pool inside (sound.free_eq ours.1)
  constructor
  · constructor
    case disjoint =>
      refine pairwise_map.mpr (sound.accounts.disjoint.imp ?_)
      intro one two apart page mine theirs
      exact apart (mem_of_mem_filter mine) (mem_of_mem_filter theirs)
    case inside =>
      intro run held page mine
      obtain ⟨old, was, rfl⟩ := mem_map.mp held
      exact sound.accounts.inside old was page (mem_of_mem_filter mine)
    case used =>
      intro page
      rw [used, Bool.and_eq_true, Bool.not_eq_true', decide_eq_false_iff_not,
        sound.accounts.used, ← mem_range'_1]
      constructor
      · rintro ⟨outside, _, held, mine⟩
        refine ⟨_, mem_map_of_mem held, mem_filter.mpr ⟨mine, ?_⟩⟩
        simp only [contains_eq_mem, Bool.not_eq_true', decide_eq_false_iff_not]
        exact outside
      · rintro ⟨_, held, mine⟩
        obtain ⟨old, was, rfl⟩ := mem_map.mp held
        obtain ⟨in_, outside⟩ := mem_filter.mp mine
        simp only [contains_eq_mem, Bool.not_eq_true', decide_eq_false_iff_not] at outside
        exact ⟨outside, old, was, in_⟩
    case counted =>
      simp only [dmaPoolFreePages, base]
      rw [if_pos ours.1, if_neg ours.1]
      exact counted
  · simp only [base]
    exact sound.base

end

theorem Sound.step (sound : Sound s) (taken : step s action s')
    (ends : EndsInWord s action) : Sound s' := by
  cases action with
  | alloc => exact sound.alloc taken
  | free => exact sound.free ends taken

end Calls

/-! ### Runs -/

/-- After every run of calls whose freed ranges end below the top of the address
space, the accounts of the pool are in order, an allocation is best-fit and
fails only where it must, and a free clears the pages of its range. -/
theorem dma_pool_contract {rawTop : BitVec 32} {frames : Pmm.State} {actions : List Action}
    {s : State} (run : Steps (Guarded step EndsInWord) (State.initial rawTop frames) actions s) :
    Accounts s ∧ (∀ pages, AllocContract s.pool pages (dmaPoolAlloc s.pool pages).1
        (dmaPoolAlloc s.pool pages).2) ∧ ∀ phys pages, phys + pages * pageSize < wordSize →
        ∃ ours p', dmaPoolFree s.pool phys pages = some (ours, p') ∧
          FreeContract s.pool phys pages ours p' := by
  have sound : Sound s :=
    run.invariant (fun _ _ _ old taken => old.step taken.1 taken.2) (.initial rawTop frames)
  exact ⟨sound.accounts, sound.allocContract, fun phys pages ends => sound.freeContract ends⟩

/-- A physical allocator that has handed out nothing. -/
def untouched : Pmm.State where
  bitmap := fun _ => 0#32
  freeFrames := 8192
  dmaFree := 4096
  hintDma := 0
  hintNormal := 0
  doubleFreeCaught := 0

/-- The pool of a machine of 32 MB. -/
def reserve : State := State.initial 0x02000000#32 untouched

/-- The third request takes the gap that the first free has left, not the large
one behind. -/
theorem dma_pool_contract_reuse : ∃ s, Steps (Guarded step EndsInWord) reserve [.alloc 4,
    .alloc 2, .free 0x1000 4, .alloc 3] s ∧ s.runs = [[0, 1, 2], [4, 5], []] ∧ Accounts s := by
  have followed : (followRun (checked exec fun s action => decide (EndsInWord s action)) reserve
      [.alloc 4, .alloc 2, .free 0x1000 4, .alloc 3]).map State.runs =
      some [[0, 1, 2], [4, 5], []] := by
    decide +kernel
  obtain ⟨s, steps, held⟩ := Steps.guarded_of_followed of_decide_eq_true followed
  exact ⟨s, steps, held, (dma_pool_contract steps).1⟩

/-- A free of two pages inside a run of four is taken, although no such run was
allocated. -/
theorem dma_pool_partial_free : ¬ ∀ rawTop frames actions s, Steps (Guarded step EndsInWord)
      (State.initial rawTop frames) actions s → ∀ phys pages, phys + pages * pageSize < wordSize →
        List.range' (pageAt s.pool phys) pages ∉ s.runs →
        (dmaPoolFree s.pool phys pages).map (fun result => result.2.free) = some s.pool.free := by
  intro claimed
  have followed : (followRun (checked exec fun s action => decide (EndsInWord s action)) reserve
      [.alloc 4]).map (fun s => (s.runs, s.pool.basePhys, s.pool.free,
        (dmaPoolFree s.pool 0x2000 2).map fun result => result.2.free)) =
      some ([[0, 1, 2, 3]], 0x1000, 1020, some 1022) := by
    decide +kernel
  obtain ⟨s, steps, held⟩ := Steps.guarded_of_followed of_decide_eq_true followed
  simp only [Prod.mk.injEq] at held
  obtain ⟨runs, base, free, freed⟩ := held
  have kept := claimed _ _ _ s steps 0x2000 2 (by decide) (by rw [runs, pageAt, base]; decide)
  rw [freed, free] at kept
  revert kept
  decide

end MainDob.Kernel.DmaPool
