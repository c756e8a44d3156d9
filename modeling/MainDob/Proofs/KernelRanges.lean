/-
Purpose: The kernel virtual-range allocator loses and doubles no page. Each operation is shown to
  move pages between the parts of the window; the argument needs the address after an asked range
  to be a 32-bit number.
Main exports: takeVirtualRange_tiled, giveVirtualRange_tiled, kernel_ranges_conserved
-/
import Mathlib.Data.List.Nodup
import Mathlib.Data.List.Perm.Subperm
import Mathlib.Tactic.Ring
import MainDob.Kernel.Kpages
import MainDob.Lib.Counting

namespace MainDob.Kernel.Kpages

open Lib
open List

/-! ### Pages of ranges -/

variable {r : Range}

theorem mem_pagesOf {page : Nat} :
    page ∈ pagesOf r ↔ ∃ i < r.pages, r.virt + i * pageSize = page := by
  simp [pagesOf]

@[simp] theorem pagesOf_none (virt : Nat) : pagesOf ⟨virt, 0⟩ = [] := rfl

@[simp] theorem pagesOf_one (virt : Nat) : pagesOf ⟨virt, 1⟩ = [virt] := by simp [pagesOf]

@[simp] theorem length_pagesOf (r : Range) : (pagesOf r).length = r.pages := by simp [pagesOf]

theorem pagesOf_add (virt one two : Nat) :
    pagesOf ⟨virt, one + two⟩ = pagesOf ⟨virt, one⟩ ++ pagesOf ⟨virt + one * pageSize, two⟩ := by
  simp only [pagesOf, range_add, map_append, map_map]
  congr 1
  apply map_congr_left
  intro i _
  simp only [Function.comp_apply]
  ring

theorem nodup_pagesOf (r : Range) : (pagesOf r).Nodup := by
  refine List.Nodup.map ?_ nodup_range
  intro i j same
  simp only [pageSize] at same
  omega

theorem window_lt_word : kheapVlimit + pageSize < wordSize := by decide

/-- A range with a page, all of it below the limit of the window. -/
structure Fits (r : Range) : Prop where
  some : 0 < r.pages
  below : ∀ page ∈ pagesOf r, page < kheapVlimit

theorem Fits.start_mem (fits : Fits r) : r.virt ∈ pagesOf r :=
  mem_pagesOf.mpr ⟨0, fits.some, by simp⟩

theorem Fits.end_lt (fits : Fits r) : r.virt + r.pages * pageSize < kheapVlimit + pageSize := by
  have last : r.virt + (r.pages - 1) * pageSize < kheapVlimit :=
    fits.below _ (mem_pagesOf.mpr ⟨r.pages - 1, by have := fits.some; omega, rfl⟩)
  have positive := fits.some
  obtain ⟨before, same⟩ := Nat.exists_eq_succ_of_ne_zero positive.ne'
  rw [same] at last ⊢
  simp only [Nat.succ_sub_one, Nat.succ_mul] at last ⊢
  omega

theorem Fits.rangeEnd_eq (fits : Fits r) : rangeEnd r = r.virt + r.pages * pageSize := by
  have bounded := fits.end_lt
  refine Nat.mod_eq_of_lt ?_
  exact bounded.trans window_lt_word

/-! ### The table of ranges -/

variable {multi : List Range} {i : Nat}

section

variable (bound : i < multi.length)
include bound

theorem swapRemove_perm : (multi.getD i default :: swapRemove multi i).Perm multi := by
  have entry : multi.getD i default = multi[i] := by simp [getD_eq_getElem?_getD, bound]
  have filled : multi ≠ [] := ne_nil_of_length_pos (by omega)
  have ends := List.getLast?_eq_some_getLast filled
  rw [entry, swapRemove, ends]
  exact perm_swap_last bound ends

theorem swapRemove_length : (swapRemove multi i).length < multi.length := by
  have := (swapRemove_perm bound).length_eq
  simp only [length_cons] at this
  omega

theorem getD_mem : multi.getD i default ∈ multi := (swapRemove_perm bound).subset (mem_cons_self ..)

theorem mem_of_mem_swapRemove {m : Range} (inside : m ∈ swapRemove multi i) : m ∈ multi :=
  (swapRemove_perm bound).subset (mem_cons_of_mem _ inside)

theorem swapRemove_pages : (pagesOf (multi.getD i default) ++
      (swapRemove multi i).flatMap pagesOf).Perm (multi.flatMap pagesOf) := by
  simpa using (swapRemove_perm bound).flatMap_right pagesOf

end

/-! ### Coalescing -/

section

variable {m : Range} (fits : Fits r) (neighbour : Fits m) (touching : adjacent r m = true)
include fits neighbour touching

theorem pagesOf_absorb : (pagesOf (absorb r m)).Perm (pagesOf r ++ pagesOf m) := by
  have rEnd := fits.rangeEnd_eq
  have mEnd := neighbour.rangeEnd_eq
  have small : (r.pages + m.pages) % wordSize = r.pages + m.pages := by
    have one := fits.end_lt
    have two := neighbour.end_lt
    refine Nat.mod_eq_of_lt ?_
    simp only [pageSize, kheapVlimit] at one two
    unfold wordSize
    omega
  by_cases before : rangeEnd m = r.virt
  · have start : absorb r m = ⟨m.virt, m.pages + r.pages⟩ := by
      simp [absorb, before, small, add_comm]
    rw [start, pagesOf_add, ← mEnd, before]
    exact perm_append_comm
  · have after : rangeEnd r = m.virt := by simpa [adjacent, before] using touching
    have start : absorb r m = ⟨r.virt, r.pages + m.pages⟩ := by simp [absorb, before, small]
    rw [start, pagesOf_add, ← rEnd, after]

theorem Fits.absorb : Fits (absorb r m) := by
  have same := pagesOf_absorb fits neighbour touching
  constructor
  · have count := same.length_eq
    simp only [length_pagesOf, length_append] at count
    have := fits.some
    omega
  · intro page inside
    rcases mem_append.mp (same.subset inside) with mine | theirs
    · exact fits.below page mine
    · exact neighbour.below page theirs

end

theorem mergeRounds_spec (fuel : Nat) :
    ∀ (multi : List Range) (r : Range), Fits r → (∀ m ∈ multi, Fits m) →
      (pagesOf (mergeRounds fuel multi r).1 ++ (mergeRounds fuel multi r).2.flatMap pagesOf).Perm
        (pagesOf r ++ multi.flatMap pagesOf) ∧ Fits (mergeRounds fuel multi r).1 ∧
      (∀ m ∈ (mergeRounds fuel multi r).2, m ∈ multi) ∧ (mergeRounds fuel multi r = (r, multi) ∨
        (mergeRounds fuel multi r).2.length < multi.length) := by
  induction fuel with
  | zero =>
    intro multi r fits _
    exact ⟨.refl _, fits, fun _ inside => inside, .inl rfl⟩
  | succ _ ih =>
    intro multi r fits entries
    rw [mergeRounds]
    cases found : multi.findIdx? (adjacent r) with
    | none => exact ⟨.refl _, fits, fun _ inside => inside, .inl rfl⟩
    | some i =>
      obtain ⟨bound, touching, _⟩ := List.findIdx?_eq_some_iff_getElem.mp found
      have entry : multi.getD i default = multi[i] := by simp [List.getD, bound]
      have neighbour : Fits (multi.getD i default) := entries _ (getD_mem bound)
      rw [← entry] at touching
      obtain ⟨pages, fits', inside, progress⟩ :=
        ih (swapRemove multi i) (Kpages.absorb r (multi.getD i default))
          (fits.absorb neighbour touching)
          (fun m old => entries m (mem_of_mem_swapRemove bound old))
      refine ⟨?_, fits', ?_, ?_⟩
      · refine pages.trans ?_
        refine ((pagesOf_absorb fits neighbour touching).append_right _).trans ?_
        rw [append_assoc]
        exact (swapRemove_pages bound).append_left _
      · intro m old
        exact mem_of_mem_swapRemove bound (inside m old)
      · refine .inr ?_
        have shorter := swapRemove_length bound
        rcases progress with same | fewer
        · dsimp only
          rw [same]
          exact shorter
        · exact fewer.trans shorter

/-! ### The window -/

/-- The pages of the window up to the bump pointer, each once: those `outside`
the pool, the stack, and the ranges of the table. -/
structure Tiled (pool : Pool) (outside : List Nat) (n : Nat) : Prop where
  bump : pool.bump = kheapVbase + n * pageSize
  limit : pool.bump ≤ kheapVlimit
  pages : (pagesOf ⟨kheapVbase, n⟩).Perm (outside ++ pool.stack ++ pool.multi.flatMap pagesOf)
  entries : ∀ m ∈ pool.multi, 0 < m.pages

variable {count : Nat}

section Tiled

variable {pool : Pool} {outside : List Nat} {n : Nat}

theorem Tiled.below (tiled : Tiled pool outside n) {page : Nat}
    (inside : page ∈ outside ++ pool.stack ++ pool.multi.flatMap pagesOf) :
    kheapVbase ≤ page ∧ page < pool.bump ∧ page < kheapVlimit := by
  obtain ⟨i, bound, rfl⟩ := mem_pagesOf.mp (tiled.pages.symm.subset inside)
  have bump := tiled.bump
  have limit := tiled.limit
  dsimp only at bound ⊢
  have room : i * pageSize < n * pageSize := Nat.mul_lt_mul_of_pos_right bound (by decide)
  omega

theorem Tiled.entry_fits (tiled : Tiled pool outside n) {m : Range}
    (inside : m ∈ pool.multi) : Fits m where
  some := tiled.entries m inside
  below _ mine := (tiled.below (mem_append_right _ (mem_flatMap.mpr ⟨m, inside, mine⟩))).2.2

theorem Tiled.outside_fits (tiled : Tiled pool (pagesOf r ++ outside) n) (positive : 0 < r.pages) :
    Fits r where
  some := positive
  below _ mine := (tiled.below (by simp [mine])).2.2

theorem Tiled.move (tiled : Tiled pool outside n) {stack : List Nat} {lostPages : Nat}
    {outside' : List Nat} (pages : (outside' ++ stack ++ multi.flatMap pagesOf).Perm
      (outside ++ pool.stack ++ pool.multi.flatMap pagesOf)) (entries : ∀ m ∈ multi, 0 < m.pages) :
    Tiled ⟨pool.bump, stack, multi, lostPages⟩ outside' n where
  bump := tiled.bump
  limit := tiled.limit
  pages := tiled.pages.trans pages.symm
  entries := entries

/-- The page on top of the stack, taken off it. -/
theorem Tiled.pop (tiled : Tiled pool outside n) {top : Nat} {rest : List Nat}
    (stack : pool.stack = top :: rest) :
    Tiled { pool with stack := rest } (pagesOf ⟨top, 1⟩ ++ outside) n := by
  refine tiled.move ?_ tiled.entries
  rw [stack, pagesOf_one, perm_iff_count]
  intro page
  simp only [count_append, count_cons, count_nil]
  omega

/-! ### Taking a range -/

theorem takeMulti_spec {rest : List Range} {virt : Nat} (taken : takeMulti multi count = some
    (virt, rest)) (entries : ∀ m ∈ multi, Fits m) : (pagesOf ⟨virt, count⟩ ++
    rest.flatMap pagesOf).Perm (multi.flatMap pagesOf) ∧ ∀ m ∈ rest, 0 < m.pages := by
  unfold takeMulti at taken
  cases found : multi.findIdx? fun m => m.pages == count || count < m.pages with
  | none => simp [found] at taken
  | some i =>
    obtain ⟨bound, enough, _⟩ := List.findIdx?_eq_some_iff_getElem.mp found
    have entry : multi.getD i default = multi[i] := by simp [List.getD, bound]
    have fits : Fits multi[i] := entries _ (getElem_mem bound)
    simp only [found, entry, beq_iff_eq] at taken
    by_cases exact : multi[i].pages = count
    · rw [if_pos exact] at taken
      cases taken
      constructor
      · have whole := swapRemove_pages bound
        rw [entry] at whole
        rw [← exact]
        exact whole
      · intro m inside
        exact (entries m (mem_of_mem_swapRemove bound inside)).some
    rw [if_neg exact] at taken
    cases taken
    have larger : count < multi[i].pages := by simpa [exact] using enough
    have inWord : (multi[i].virt + count * pageSize) % wordSize =
        multi[i].virt + count * pageSize := by
      have := fits.end_lt
      have part : count * pageSize ≤ multi[i].pages * pageSize := Nat.mul_le_mul_right _ larger.le
      have word := window_lt_word
      exact Nat.mod_eq_of_lt (by omega)
    rw [inWord]
    have split : pagesOf multi[i] = pagesOf ⟨multi[i].virt, count⟩ ++
        pagesOf ⟨multi[i].virt + count * pageSize, multi[i].pages - count⟩ := by
      rw [← pagesOf_add, Nat.add_sub_cancel' larger.le]
    constructor
    · refine (((set_perm_cons_eraseIdx bound _).flatMap_right pagesOf).append_left _).trans ?_
      rw [flatMap_cons, ← append_assoc, ← split]
      exact (getElem_cons_eraseIdx_perm bound).flatMap_right pagesOf
    · intro m inside
      rcases mem_or_eq_of_mem_set inside with old | rfl
      · exact (entries m old).some
      · exact Nat.sub_pos_of_lt larger

theorem takeVirtualRange_cases (pool : Pool) (count : Nat) :
    (∃ top rest, count = 1 ∧ pool.stack = top :: rest ∧
        takeVirtualRange pool count = (top, { pool with stack := rest })) ∨
      (∃ virt rest, takeMulti pool.multi count = some (virt, rest) ∧
        takeVirtualRange pool count = (virt, { pool with multi := rest })) ∨
      (takeMulti pool.multi count = none ∧ takeVirtualRange pool count =
          if rangeEnd ⟨pool.bump, count⟩ > kheapVlimit then (0, pool)
          else (pool.bump, { pool with bump := rangeEnd ⟨pool.bump, count⟩ })) := by
  by_cases popped : count = 1 ∧ pool.stack ≠ []
  · obtain ⟨one, some⟩ := popped
    obtain ⟨top, rest, stack⟩ := exists_cons_of_ne_nil some
    exact .inl ⟨top, rest, one, stack, by simp [takeVirtualRange, one, stack]⟩
  · have empty : (if count = 1 then pool.stack else []) = [] := by
      by_cases one : count = 1
      · rw [if_pos one]
        exact not_not.mp fun some => popped ⟨one, some⟩
      · exact if_neg one
    right
    unfold takeVirtualRange
    rw [empty]
    cases takeMulti pool.multi count with
    | none => exact .inr ⟨rfl, rfl⟩
    | some found => exact .inl ⟨found.1, found.2, rfl, rfl⟩

theorem takeVirtualRange_tiled (tiled : Tiled pool outside n)
    (positive : 0 < count) (inWord : pool.bump + count * pageSize < wordSize) :
    takeVirtualRange pool count = (0, pool) ∨ ∃ n', Tiled (takeVirtualRange pool count).2
        (pagesOf ⟨(takeVirtualRange pool count).1, count⟩ ++ outside) n' := by
  rcases takeVirtualRange_cases pool count with
    ⟨top, rest, rfl, stack, result⟩ | ⟨virt, rest, taken, result⟩ |
    ⟨_, result⟩
  · refine .inr ⟨n, ?_⟩
    rw [result]
    exact tiled.pop stack
  · refine .inr ⟨n, ?_⟩
    rw [result]
    obtain ⟨pages, entries⟩ := takeMulti_spec taken fun m inside => tiled.entry_fits inside
    refine tiled.move ?_ entries
    refine List.Perm.trans ?_ (pages.append_left (outside ++ pool.stack))
    rw [perm_iff_count]
    intro page
    simp only [count_append]
    omega
  · rw [result]
    have top : rangeEnd ⟨pool.bump, count⟩ = pool.bump + count * pageSize := Nat.mod_eq_of_lt inWord
    by_cases past : rangeEnd ⟨pool.bump, count⟩ > kheapVlimit
    · exact .inl (if_pos past)
    rw [if_neg past]
    refine .inr ⟨n + count, ?_, ?_, ?_, tiled.entries⟩
    · have bump := tiled.bump
      dsimp only
      rw [add_mul]
      omega
    · exact Nat.le_of_not_gt past
    · rw [pagesOf_add, ← tiled.bump]
      refine (tiled.pages.append_right _).trans ?_
      rw [perm_iff_count]
      intro page
      simp only [count_append]
      omega

/-! ### Giving a range back -/

theorem spill_pages (stack : List Nat) (fits : Fits r) :
    ((spill stack r).1 ++ pagesOf (spill stack r).2).Perm (stack ++ pagesOf r) := by
  simp only [spill]
  have part : min r.pages (kpStackMax - stack.length) ≤ r.pages := min_le_left ..
  generalize min r.pages (kpStackMax - stack.length) = spilled at part ⊢
  have whole : pagesOf r = pagesOf ⟨r.virt, spilled⟩ ++
      pagesOf ⟨r.virt + spilled * pageSize, r.pages - spilled⟩ := by
    rw [← pagesOf_add, Nat.add_sub_cancel' part]
  have inWord : (pagesOf ⟨r.virt, spilled⟩).map (· % wordSize) = pagesOf ⟨r.virt, spilled⟩ := by
    refine (map_congr_left fun page mine => ?_).trans (map_id _)
    have low := fits.below page (whole ▸ mem_append_left _ mine)
    exact Nat.mod_eq_of_lt (low.trans (by decide))
  rw [inWord, whole, perm_iff_count]
  intro page
  simp only [count_append, count_reverse]
  omega

section

variable (tiled : Tiled pool (pagesOf r ++ outside) n)
include tiled

theorem mergeWithMulti_tiled (positive : 0 < r.pages) :
    Tiled { pool with multi := (mergeWithMulti pool.multi r).2 }
        (pagesOf (mergeWithMulti pool.multi r).1 ++ outside) n ∧
      0 < (mergeWithMulti pool.multi r).1.pages := by
  obtain ⟨pages, fits, inside, _⟩ :=
    mergeRounds_spec pool.multi.length pool.multi r
      (tiled.outside_fits positive) fun m entry => tiled.entry_fits entry
  refine ⟨tiled.move ?_ ?_, fits.some⟩
  · rw [perm_iff_count]
    intro page
    have same := pages.count_eq page
    simp only [count_append, mergeWithMulti] at same ⊢
    omega
  · intro m old
    exact tiled.entries m (inside m old)

theorem Tiled.retract (positive : 0 < r.pages)
    (top : rangeEnd r = pool.bump) : ∃ n', Tiled { pool with bump := r.virt } outside n' := by
  have fits := tiled.outside_fits positive
  obtain ⟨start, _, at_⟩ := mem_pagesOf.mp
    (tiled.pages.symm.subset (show r.virt ∈ _ by simp [fits.start_mem]))
  dsimp only at at_
  have bump := tiled.bump
  rw [fits.rangeEnd_eq] at top
  have cut : n = start + r.pages := by
    have same : n * pageSize = (start + r.pages) * pageSize := by
      rw [add_mul]
      omega
    exact Nat.eq_of_mul_eq_mul_right (by decide) same
  refine ⟨start, at_.symm, ?_, ?_, tiled.entries⟩
  · exact (fits.below _ fits.start_mem).le
  have pages := tiled.pages
  have whole : pagesOf ⟨r.virt, r.pages⟩ = pagesOf r := rfl
  rw [cut, pagesOf_add, at_, whole] at pages
  rw [perm_iff_count] at pages ⊢
  intro page
  have same := pages page
  simp only [count_append] at same ⊢
  omega

theorem giveVirtualRange_tiled (positive : 0 < r.pages) : ∃ n', Tiled (giveVirtualRange pool r).2
      (pagesOf (giveVirtualRange pool r).1 ++ outside) n' := by
  obtain ⟨merged, some⟩ := mergeWithMulti_tiled tiled positive
  unfold giveVirtualRange
  generalize mergeWithMulti pool.multi r = result at merged some ⊢
  obtain ⟨r', multi⟩ := result
  dsimp only at merged some ⊢
  split
  · rename_i top
    exact merged.retract some (beq_iff_eq.mp top)
  split
  · rename_i single
    have one : r' = ⟨r'.virt, 1⟩ := by
      have : r'.pages = 1 := by simpa using (Bool.and_eq_true_iff.mp single).1
      rw [← this]
    refine ⟨n, merged.move ?_ merged.entries⟩
    rw [one, pagesOf_one, perm_iff_count]
    intro page
    simp only [nothingLost, pagesOf_none, count_append, count_cons, count_nil]
    omega
  split
  · refine ⟨n, merged.move ?_ ?_⟩
    · rw [perm_iff_count]
      intro page
      simp only [nothingLost, pagesOf_none, count_append,
        flatMap_append, flatMap_singleton, count_nil]
      omega
    · intro m inside
      rcases mem_append.mp inside with old | new
      · exact merged.entries m old
      · cases mem_singleton.mp new
        exact some
  · refine ⟨n, merged.move ?_ merged.entries⟩
    have pages := spill_pages pool.stack (merged.outside_fits some)
    rw [perm_iff_count] at pages ⊢
    intro page
    have same := pages page
    simp only [count_append] at same ⊢
    omega

end

end Tiled

/-! ### Capacities and the count of lost pages -/

/-- The stack and the table stay within their arrays. -/
structure Sized (pool : Pool) : Prop where
  stack : pool.stack.length ≤ kpStackMax
  multi : pool.multi.length ≤ kpMultiMax

theorem takeMulti_length {rest : List Range} {virt : Nat}
    (taken : takeMulti multi count = some (virt, rest)) : rest.length ≤ multi.length := by
  unfold takeMulti at taken
  cases found : multi.findIdx? fun m => m.pages == count || count < m.pages with
  | none => simp [found] at taken
  | some =>
    obtain ⟨bound, _⟩ := List.findIdx?_eq_some_iff_getElem.mp found
    simp only [found] at taken
    split at taken
    · cases taken
      exact (swapRemove_length bound).le
    · cases taken
      exact (length_set ..).le

theorem takeVirtualRange_sized {pool : Pool} (sized : Sized pool) (count : Nat) :
    Sized (takeVirtualRange pool count).2 ∧
      (takeVirtualRange pool count).2.vaLostPages = pool.vaLostPages := by
  rcases takeVirtualRange_cases pool count with
    ⟨top, rest, _, stack, result⟩ | ⟨virt, rest, taken, result⟩ |
    ⟨_, result⟩
  · rw [result]
    refine ⟨⟨?_, sized.multi⟩, rfl⟩
    have room := sized.stack
    rw [stack, length_cons] at room
    exact Nat.le_of_succ_le room
  · rw [result]
    exact ⟨⟨sized.stack, (takeMulti_length taken).trans sized.multi⟩, rfl⟩
  · rw [result]
    split
    · exact ⟨sized, rfl⟩
    · exact ⟨⟨sized.stack, sized.multi⟩, rfl⟩

theorem giveVirtualRange_sized {pool : Pool} (sized : Sized pool)
    (counted : pool.vaLostPages < wordSize)
    (shorter : (mergeWithMulti pool.multi r).2.length ≤ pool.multi.length) :
    Sized (giveVirtualRange pool r).2 ∧ (giveVirtualRange pool r).2.vaLostPages =
        (pool.vaLostPages + (giveVirtualRange pool r).1.pages) % wordSize := by
  have kept : pool.vaLostPages = (pool.vaLostPages + nothingLost.pages) %
      wordSize := (Nat.mod_eq_of_lt counted).symm
  have table := shorter.trans sized.multi
  have room := sized.stack
  unfold giveVirtualRange
  generalize mergeWithMulti pool.multi r = result at table ⊢
  dsimp only at table ⊢
  split
  · exact ⟨⟨room, table⟩, kept⟩
  split
  · rename_i single
    have free : pool.stack.length < kpStackMax := by simpa using (Bool.and_eq_true_iff.mp single).2
    exact ⟨⟨free, table⟩, kept⟩
  split
  · rename_i free
    refine ⟨⟨room, ?_⟩, kept⟩
    rw [length_append]
    exact free
  · refine ⟨⟨?_, table⟩, rfl⟩
    simp only [spill, length_append, length_reverse, length_map, length_pagesOf]
    omega

theorem mergeWithMulti_length (fits : Fits r) (entries : ∀ m ∈ multi, Fits m) :
    mergeWithMulti multi r = (r, multi) ∨ (mergeWithMulti multi r).2.length < multi.length :=
  (mergeRounds_spec multi.length multi r fits entries).2.2.2

theorem giveVirtualRange_single {pool : Pool} {top : Nat} (table : pool.multi.length ≤ kpMultiMax)
    (room : pool.stack.length < kpStackMax)
    (joined : mergeWithMulti pool.multi ⟨top, 1⟩ = (⟨top, 1⟩, pool.multi) ∨
      (mergeWithMulti pool.multi ⟨top, 1⟩).2.length < pool.multi.length) :
    (giveVirtualRange pool ⟨top, 1⟩).1 = nothingLost := by
  unfold giveVirtualRange
  rcases joined with alone | fewer
  · rw [alone]
    dsimp only
    split
    · rfl
    · rw [if_pos (by simpa using room)]
  · generalize mergeWithMulti pool.multi ⟨top, 1⟩ = result at fewer ⊢
    dsimp only at fewer ⊢
    split
    · rfl
    split
    · rfl
    · rw [if_pos (fewer.trans_le table)]

/-! ### Runs -/

/-- What every section keeps: the window is tiled, the arrays are within
bounds, the lost pages are the counted ones, and a live range has a page. -/
structure Inv (s : Kva) : Prop where
  tiled : ∃ n, Tiled s.pool (s.live.flatMap pagesOf ++ s.lost) n
  sized : Sized s.pool
  counted : s.pool.vaLostPages = s.lost.length
  live : ∀ r ∈ s.live, 0 < r.pages

theorem Inv.initial : Inv Kva.initial where
  tiled := ⟨0, rfl, by decide, .nil, nofun⟩
  sized := ⟨Nat.zero_le _, Nat.zero_le _⟩
  counted := rfl
  live := nofun

section

variable {pool : Pool} {outside : List Nat} {n : Nat} (tiled : Tiled pool outside n)
include tiled

theorem Tiled.pages_lt : n < wordSize := by
  have bump := tiled.bump
  have limit := tiled.limit
  have room : n * pageSize < wordSize := by
    have := window_lt_word
    omega
  exact (Nat.le_mul_of_pos_right n (by decide)).trans_lt room

theorem Tiled.length_lt : outside.length < wordSize := by
  have count := tiled.pages.length_eq
  simp only [length_pagesOf, length_append] at count
  have := tiled.pages_lt
  omega

end

variable {s : Kva}

theorem Inv.give {n : Nat}
    (tiled : Tiled s.pool (pagesOf r ++ (s.live.flatMap pagesOf ++ s.lost)) n)
    (positive : 0 < r.pages) (sized : Sized s.pool) (counted : s.pool.vaLostPages = s.lost.length)
    (live : ∀ r ∈ s.live, 0 < r.pages) : Inv (s.give r) := by
  have small : s.pool.vaLostPages < wordSize := by
    have := tiled.length_lt
    simp only [length_append] at this
    omega
  have shorter : (mergeWithMulti s.pool.multi r).2.length ≤ s.pool.multi.length := by
    rcases mergeWithMulti_length (tiled.outside_fits positive)
      (fun m entry => tiled.entry_fits entry) with same | fewer
    · rw [same]
    · exact fewer.le
  obtain ⟨n', tiled'⟩ := giveVirtualRange_tiled tiled positive
  obtain ⟨sized', counted'⟩ := giveVirtualRange_sized sized small shorter
  refine ⟨⟨n', ?_⟩, sized', ?_, live⟩
  · refine { tiled' with pages := tiled'.pages.trans ?_ }
    rw [perm_iff_count]
    intro page
    simp only [Kva.give, count_append]
    omega
  · have inWord : s.pool.vaLostPages + (giveVirtualRange s.pool r).1.pages < wordSize := by
      have := tiled'.length_lt
      simp only [length_append, length_pagesOf] at this
      omega
    rw [Nat.mod_eq_of_lt inWord, counted, add_comm] at counted'
    simpa [Kva.give] using counted'

theorem flatMap_erase {live : List Range} {held : Range} (inside : held ∈ live) :
    (live.flatMap pagesOf).Perm (pagesOf held ++ (live.erase held).flatMap pagesOf) := by
  simpa using (perm_cons_erase inside).flatMap_right pagesOf

theorem flatMap_filter_pages (ranges : List Range) :
    (ranges.filter fun r => 0 < r.pages).flatMap pagesOf = ranges.flatMap pagesOf := by
  induction ranges with
  | nil => rfl
  | cons r _ ih =>
    by_cases positive : 0 < r.pages
    · simp [positive, ih]
    have none : r = ⟨r.virt, 0⟩ := by rw [← Nat.eq_zero_of_not_pos positive]
    rw [filter_cons_of_neg (by simpa using positive), ih, none]
    rfl

theorem remainder_pages {held part : Range} (within : Within held part) :
    (pagesOf held).Perm (pagesOf part ++ (remainder held part).flatMap pagesOf) := by
  obtain ⟨skip, start, fits⟩ := within
  have skipped : (part.virt - held.virt) / pageSize = skip := by
    rw [start, Nat.add_sub_cancel_left, Nat.mul_div_cancel _ (by decide)]
  have whole : pagesOf held = pagesOf ⟨held.virt, skip⟩ ++ (pagesOf part ++
      pagesOf ⟨part.virt + part.pages * pageSize, held.pages - skip - part.pages⟩) := by
    have inner : pagesOf part = pagesOf ⟨part.virt, part.pages⟩ := rfl
    have total : skip + (part.pages + (held.pages - skip - part.pages)) = held.pages := by omega
    rw [inner, ← pagesOf_add, start, ← pagesOf_add, total]
  rw [remainder, flatMap_filter_pages, skipped, whole, perm_iff_count]
  intro page
  simp only [count_append, flatMap_cons, flatMap_nil, count_nil]
  omega

/-- A trimming round pops the page on top of the stack and gives it back. -/
theorem Inv.trimRound_cases {s' : Kva} (inv : Inv s) (taken : Kpages.step s .trimRound s') :
    ∃ top rest, s.pool.stack = top :: rest ∧ rest.length < kpStackMax ∧
      s' = Kva.give { s with pool := { s.pool with stack := rest } } ⟨top, 1⟩ := by
  simp only [Kpages.step, exec, singlesRound] at taken
  cases stack : s.pool.stack with
  | nil => simp [stack] at taken
  | cons top rest =>
    simp only [stack, Option.map_some, Option.some.injEq] at taken
    have room := inv.sized.stack
    rw [stack, length_cons] at room
    exact ⟨top, rest, rfl, room, taken.symm⟩

/-- Every section taken without a wrap of the bump pointer keeps the
invariant. -/
theorem Inv.step {s' : Kva} {action : Action} (inv : Inv s)
    (taken : step s action s') (inWord : NoWrap s action) : Inv s' := by
  obtain ⟨n, tiled⟩ := inv.tiled
  cases action with
  | take count =>
    simp only [Kpages.step, exec] at taken
    split at taken
    · cases taken
    rename_i positive
    obtain ⟨sized, counted⟩ := takeVirtualRange_sized inv.sized count
    rcases takeVirtualRange_tiled tiled (Nat.pos_of_ne_zero positive) inWord
      with refused | ⟨n', tiled'⟩
    · rw [refused] at taken
      cases taken
      exact inv
    have start : kheapVbase ≤ (takeVirtualRange s.pool count).1 := by
      refine (tiled'.below ?_).1
      refine mem_append_left _ (mem_append_left _ (mem_append_left _ ?_))
      exact mem_pagesOf.mpr ⟨0, Nat.pos_of_ne_zero positive, by simp⟩
    have above : 0 < kheapVbase := by decide
    rw [if_neg (by omega)] at taken
    cases taken
    refine ⟨⟨n', ?_⟩, sized, counted.trans inv.counted, ?_⟩
    · simpa using tiled'
    intro r inside
    rcases mem_cons.mp inside with rfl | old
    · exact Nat.pos_of_ne_zero positive
    · exact inv.live r old
  | unback held =>
    simp only [Kpages.step, exec] at taken
    split at taken
    · rename_i inside
      cases taken
      refine Inv.give (n := n) ?_ (inv.live held inside) inv.sized
        inv.counted fun r old => inv.live r (mem_of_mem_erase old)
      refine { tiled with pages := tiled.pages.trans ?_ }
      rw [← append_assoc]
      exact (((flatMap_erase inside).append_right _).append_right _).append_right _
    · cases taken
  | free =>
    simp only [Kpages.step, exec] at taken
    split at taken
    · rename_i allowed
      obtain ⟨inside, positive, within⟩ := allowed
      cases taken
      refine Inv.give (n := n) ?_ (Nat.pos_of_ne_zero positive) inv.sized inv.counted ?_
      · refine { tiled with pages := tiled.pages.trans ?_ }
        have outer := flatMap_erase inside
        have inner := remainder_pages within
        rw [perm_iff_count] at outer inner ⊢
        intro page
        have one := outer page
        have two := inner page
        simp only [count_append, flatMap_append] at one two ⊢
        omega
      · intro r inside
        rcases mem_append.mp inside with new | old
        · simpa using (mem_filter.mp new).2
        · exact inv.live r (mem_of_mem_erase old)
    · cases taken
  | trimRound =>
    obtain ⟨top, rest, stack, room, rfl⟩ := inv.trimRound_cases taken
    exact Inv.give (s := { s with pool := { s.pool with stack := rest } }) (r := ⟨top, 1⟩)
      (tiled.pop stack) Nat.one_pos ⟨Nat.le_of_succ_le room, inv.sized.multi⟩ inv.counted inv.live

theorem Inv.trim_lossless {s' : Kva} (inv : Inv s)
    (taken : Kpages.step s .trimRound s') : s'.lost = s.lost := by
  obtain ⟨_, tiled⟩ := inv.tiled
  obtain ⟨top, rest, stack, room, rfl⟩ := inv.trimRound_cases taken
  have fits := (tiled.pop stack).outside_fits Nat.one_pos
  have kept : (giveVirtualRange { s.pool with stack := rest } ⟨top, 1⟩).1 = nothingLost :=
    giveVirtualRange_single inv.sized.multi room
      (mergeWithMulti_length fits fun m entry => tiled.entry_fits entry)
  simp [Kva.give, kept, nothingLost]

theorem Inv.kpagesAlloc (inv : Inv s) (count : Nat) (backed : Bool)
    (inWord : s.pool.bump + count * pageSize < wordSize) :
    Inv (kpagesAlloc s count backed).2 ∧ (((Kpages.kpagesAlloc s count backed).1 = 0 ∧
        (Kpages.kpagesAlloc s count backed).2.live = s.live) ∨
      ((Kpages.kpagesAlloc s count backed).1 ≠ 0 ∧ 0 < count ∧
        (Kpages.kpagesAlloc s count backed).2.live =
          ⟨(Kpages.kpagesAlloc s count backed).1, count⟩ :: s.live)) := by
  by_cases none : count = 0
  · simp only [Kpages.kpagesAlloc, if_pos none]
    exact ⟨inv, .inl ⟨trivial, trivial⟩⟩
  have taken : ∀ s', exec s (.take count) = some s' → Inv s' := fun s' made => inv.step made inWord
  simp only [exec, if_neg none] at taken
  simp only [Kpages.kpagesAlloc, if_neg none]
  by_cases refused : (takeVirtualRange s.pool count).1 = 0
  · simp only [if_pos refused] at taken ⊢
    exact ⟨taken _ rfl, .inl ⟨trivial, trivial⟩⟩
  simp only [if_neg refused] at taken ⊢
  have held := taken _ rfl
  cases backed with
  | true => exact ⟨held, .inr ⟨refused, Nat.pos_of_ne_zero none, rfl⟩⟩
  | false =>
    generalize (takeVirtualRange s.pool count).2 = pool at held ⊢
    generalize (takeVirtualRange s.pool count).1 = virt at held ⊢
    have given : Kpages.step { s with pool, live := ⟨virt, count⟩ :: s.live }
        (.unback ⟨virt, count⟩) _ :=
      if_pos (mem_cons_self ..)
    have unbacked := held.step given trivial
    rw [erase_cons_head] at unbacked
    exact ⟨unbacked, .inl ⟨rfl, rfl⟩⟩

theorem Inv.kpagesFree {virt : Nat} (inv : Inv s)
    (held : ⟨virt, count⟩ ∈ s.live) (above : virt ≠ 0) : Inv (kpagesFree s virt count) ∧
      (Kpages.kpagesFree s virt count).live = s.live.erase ⟨virt, count⟩ := by
  have some : count ≠ 0 := (inv.live _ held).ne'
  have given : Kpages.step s (.unback ⟨virt, count⟩) _ := if_pos held
  simp only [Kpages.kpagesFree, if_neg (not_or.mpr ⟨above, some⟩)]
  exact ⟨inv.step given trivial, rfl⟩

theorem Inv.conserved (inv : Inv s) : Conserved s := by
  obtain ⟨n, tiled⟩ := inv.tiled
  refine ⟨⟨n, tiled.bump, tiled.pages⟩, inv.counted, ?_⟩
  have distinct := (tiled.pages.nodup_iff).mp (nodup_pagesOf _)
  have live : (s.live.flatMap pagesOf).Nodup :=
    (nodup_append.mp (nodup_append.mp (nodup_append.mp distinct).1).1).1
  exact (nodup_flatMap.mp live).2

section

variable {pool : Pool} {outside : List Nat} {n : Nat} (tiled : Tiled pool outside n)
include tiled

theorem Tiled.takeMulti_none (large : kheapVlimit + pageSize ≤ kheapVbase + count * pageSize)
    : takeMulti pool.multi count = none := by
  cases taken : takeMulti pool.multi count with
  | none => rfl
  | some result =>
    obtain ⟨virt, rest⟩ := result
    obtain ⟨pages, _⟩ := takeMulti_spec taken fun m inside => tiled.entry_fits inside
    exfalso
    have inside : ∀ page ∈ pagesOf ⟨virt, count⟩, kheapVbase ≤ page ∧ page < kheapVlimit := by
      intro page mine
      have within := tiled.below (mem_append_right _ (pages.subset (mem_append_left _ mine)))
      exact ⟨within.1, within.2.2⟩
    have positive : 0 < count := by
      refine Nat.pos_of_ne_zero fun none => ?_
      rw [none] at large
      revert large
      decide
    have fits : Fits ⟨virt, count⟩ := ⟨positive, fun page mine => (inside page mine).2⟩
    have ends := fits.end_lt
    have start := (inside virt fits.start_mem).1
    dsimp only at ends
    omega

theorem Tiled.take_wraps
    (sized : count * pageSize < wordSize) (wraps : wordSize ≤ pool.bump + count * pageSize) :
    count ≠ 0 ∧ takeVirtualRange pool count = (pool.bump,
      { pool with bump := pool.bump + count * pageSize - wordSize }) := by
  have limit := tiled.limit
  have sizes : kheapVlimit + pageSize + (kheapVlimit - kheapVbase) ≤ wordSize := by decide
  have word := window_lt_word
  refine ⟨by rintro rfl; omega, ?_⟩
  have wrapped : rangeEnd ⟨pool.bump, count⟩ = pool.bump + count * pageSize - wordSize := by
    simp only [rangeEnd]
    rw [Nat.mod_eq_sub_mod wraps]
    exact Nat.mod_eq_of_lt (by omega)
  rcases takeVirtualRange_cases pool count with
    ⟨_, _, rfl, _⟩ | ⟨_, _, some, _⟩ | ⟨_, result⟩
  · omega
  · rw [tiled.takeMulti_none (by omega)] at some
    cases some
  · rw [result, wrapped, if_neg (by omega)]

end

theorem Inv.wrap_breaks {s' : Kva} (inv : Inv s)
    (sized : ByteSized (.take count)) (taken : Kpages.step s (.take count) s')
    (wraps : ¬ NoWrap s (.take count)) : ¬ Conserved s' := by
  obtain ⟨n, tiled⟩ := inv.tiled
  have above : 0 < s.pool.bump := by
    have start : 0 < kheapVbase := by decide
    have := tiled.bump
    omega
  simp only [ByteSized, NoWrap, not_lt] at sized wraps
  obtain ⟨positive, result⟩ := tiled.take_wraps sized wraps
  have behind : s.pool.bump + count * pageSize - wordSize < s.pool.bump := by omega
  generalize s.pool.bump + count * pageSize - wordSize = low at result behind
  simp only [Kpages.step, exec, result, if_neg positive, if_neg above.ne',
    Option.some.injEq] at taken
  subst taken
  rintro ⟨⟨n', bump, pages⟩, _, _⟩
  have mine : s.pool.bump ∈ pagesOf ⟨s.pool.bump, count⟩ :=
    mem_pagesOf.mpr ⟨0, Nat.pos_of_ne_zero positive, by simp⟩
  have inside : s.pool.bump ∈ pagesOf ⟨kheapVbase, n'⟩ := by
    refine pages.symm.subset ?_
    refine mem_append_left _ (mem_append_left _ (mem_append_left _ ?_))
    exact mem_flatMap.mpr ⟨_, mem_cons_self .., mine⟩
  obtain ⟨i, bound, here⟩ := mem_pagesOf.mp inside
  have room := Nat.mul_lt_mul_of_pos_right bound (show 0 < pageSize by decide)
  have last : kheapVbase + i * pageSize < kheapVbase + n' * pageSize := Nat.add_lt_add_left room _
  rw [← bump, here] at last
  exact absurd (last.trans behind) (lt_irrefl _)

/-- At every point of every run in which the end of each asked range, laid at
the bump pointer, is a `uint32_t`, the window from the heap base to the bump
pointer is cut without overlap into the live ranges, the free pages and the
lost ones.  From such a point, a request of a byte size that does not wrap
keeps this exactly when its end does not wrap either, and the trim of the
singles loses no page. -/
theorem kernel_ranges_conserved {actions : List Action} {s : Kva}
    (run : Steps (Guarded Kpages.step NoWrap) Kva.initial actions s) : Conserved s ∧
    (∀ action s', ByteSized action → Kpages.step s action s' → (Conserved s' ↔ NoWrap s action)) ∧
      ∀ s', Kpages.step s .trimRound s' → s'.lost = s.lost := by
  have inv : Inv s := run.invariant (fun _ _ _ old taken => old.step taken.1 taken.2) Inv.initial
  refine ⟨inv.conserved, ?_, fun s' taken => inv.trim_lossless taken⟩
  intro action s' sized taken
  constructor
  · intro conserved
    cases action with
    | take =>
      by_contra wraps
      exact inv.wrap_breaks sized taken wraps conserved
    | unback | free | trimRound => trivial
  · intro inWord
    exact (inv.step taken inWord).conserved

/-- Three pages and one are taken, the middle page of the three is given back,
then its two neighbours, and the single page is trimmed into a range. -/
def partialFrees : List Action :=
  [.take 3, .take 1, .free ⟨0xD0000000, 3⟩ 0xD0001000 1,
    .free ⟨0xD0000000, 1⟩ 0xD0000000 1, .unback ⟨0xD0002000, 1⟩, .trimRound]

theorem kernel_ranges_conserved_partialFrees :
    ∃ s, Steps (Guarded Kpages.step NoWrap) Kva.initial partialFrees s ∧
      s.live = [⟨0xD0003000, 1⟩] ∧ Conserved s := by
  have followed : (followRun (checked exec fun s action => decide (NoWrap s action))
      Kva.initial partialFrees).map Kva.live = some [⟨0xD0003000, 1⟩] := by
    decide +kernel
  obtain ⟨s, run, live⟩ := Steps.guarded_of_followed of_decide_eq_true followed
  exact ⟨s, run, live, (kernel_ranges_conserved run).1⟩

/-- A request for 0x30000 pages, whose 0x30000000 bytes end exactly at the top of
the address space, takes the bump pointer to 0.  Before its frames have run out
another processor asks twice for a page; then the large range is given back. -/
def wrappedTake : List Action :=
  [.take 0x30000, .take 1, .take 1, .unback ⟨kheapVbase, 0x30000⟩]

/-- What is live then is a page outside the heap window. -/
theorem kernel_ranges_wrap : ∃ s, Steps (Guarded Kpages.step fun _ action => ByteSized action)
      Kva.initial wrappedTake s ∧ s.live = [⟨0x1000, 1⟩] ∧ ¬ Conserved s := by
  have followed : (followRun (checked exec fun _ action => decide (ByteSized action))
      Kva.initial wrappedTake).map (fun s => (s.live, s.pool.bump)) =
      some ([⟨0x1000, 1⟩], 0x2000) := by
    decide +kernel
  obtain ⟨s, run, seen⟩ := Steps.guarded_of_followed of_decide_eq_true followed
  simp only [Prod.mk.injEq] at seen
  refine ⟨s, run, seen.1, fun conserved => ?_⟩
  obtain ⟨n, bump, _⟩ := conserved.window
  have start : 0x2000 < kheapVbase := by decide
  omega

end MainDob.Kernel.Kpages
