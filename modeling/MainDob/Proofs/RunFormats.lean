/-
Purpose: A run list as the payload of each of its bytes and the payload of its
  last run, which is read at the end: what inserting and formatting do to these.
Main exports: formats, lastOf, payloadAt_eq
-/
import MainDob.Proofs.RunLists

namespace MainDob.Proofs.RunLists

open Doc.Runs
open Doc.PieceTable (word)
open List Option

variable {α : Type}

/-- The payload of each byte. -/
def formats (runs : List (Run α)) : List α := runs.flatMap spread

/-- The payload that is read at the end. -/
def lastOf (runs : List (Run α)) : Option α := (runs.map (·.payload)).getLast?

/-- The payload of the run that takes what is inserted at a position. -/
def taker (rl : Runlist α) (pos : Nat) : Option α :=
  rl.runs[insertAt rl pos]?.map (·.payload)

variable {runs : List (Run α)} {rl rl' : Runlist α} {i pos n : Nat} {run : Run α}

theorem formats_append (left right : List (Run α)) :
    formats (left ++ right) = formats left ++ formats right :=
  flatMap_append

theorem formats_single (run : Run α) : formats [run] = List.replicate run.len run.payload := by
  simp [formats, spread]

theorem length_formats (runs : List (Run α)) : (formats runs).length = sum runs :=
  length_spread runs

theorem runs_around (there : runs[i]? = some run) :
    runs = runs.take i ++ [run] ++ runs.drop (i + 1) := by
  obtain ⟨bound, rfl⟩ := List.getElem?_eq_some_iff.mp there
  rw [append_assoc, singleton_append, ← drop_eq_getElem_cons bound, take_append_drop]

theorem sum_take_succ (there : runs[i]? = some run) :
    sum (runs.take (i + 1)) = sum (runs.take i) + run.len := by
  simp [take_add_one, there]

theorem sum_take_mono {j : Nat} (order : i ≤ j) : sum (runs.take i) ≤ sum (runs.take j) := by
  have split := sum_take_drop (runs.take j) i
  rw [take_take, min_eq_left order] at split
  omega

theorem formats_at (there : runs[i]? = some run) (from_ : sum (runs.take i) ≤ pos)
    (before : pos < sum (runs.take i) + run.len) : (formats runs)[pos]? = some run.payload := by
  have length := length_formats (runs.take i)
  rw [runs_around there, formats_append, formats_append, formats_single,
    append_assoc, List.getElem?_append_right (by omega),
    List.getElem?_append_left (by simp; omega), List.getElem?_replicate, if_pos (by omega)]

theorem run_at (inside : pos < sum runs) :
    ∃ i run, runs[i]? = some run ∧ sum (runs.take i) ≤ pos ∧ pos < sum (runs.take i) + run.len := by
  rcases @Lib.Segments.locate_cases _ _ spread runs pos with
    ⟨run, there, within, place⟩ | ⟨_, past⟩
  · rw [length_spread] at place
    have length : (spread run).length = run.len := length_replicate
    exact ⟨_, run, there, by omega, by omega⟩
  · rw [length_spread] at past
    omega

theorem payloadAt_eq (small : sum rl.runs < word) (pos : Nat) :
    payloadAt rl pos = ((formats rl.runs)[pos]?).or (lastOf rl.runs) := by
  unfold payloadAt runAt
  rcases find_cases small pos with ⟨run, there, inside, place⟩ | ⟨past, beyond⟩
  · obtain ⟨bound, _⟩ := List.getElem?_eq_some_iff.mp there
    rw [if_neg (by omega), there, formats_at there (by omega) (by omega)]
    rfl
  · have none : (formats rl.runs)[pos]? = Option.none :=
      List.getElem?_eq_none (by rw [length_formats]; exact beyond)
    rw [past, if_pos (le_refl rl.runs.length), none, lastOf,
      List.getLast?_eq_getElem?, length_map, List.getElem?_map]
    rfl

/-! ### Inserting -/

theorem splice_replicate (front back : List α) (item : α) (more : Nat) {count within : Nat}
    (inside : within ≤ count) : front ++ List.replicate (count + more) item ++ back = (front ++
      List.replicate count item ++ back).take (front.length + within) ++ List.replicate more item ++
        (front ++ List.replicate count item ++ back).drop (front.length + within) := by
  obtain ⟨left, rfl⟩ := Nat.exists_eq_add_of_le inside
  rw [Nat.add_right_comm, replicate_add, replicate_add, replicate_add]
  have whole : front ++ (List.replicate within item ++ List.replicate left item) ++
      back = (front ++ List.replicate within item) ++
        (List.replicate left item ++ back) := by simp only [append_assoc]
  rw [whole, take_left' (by simp), drop_left' (by simp)]
  simp only [append_assoc]

variable [Payload α] {P : α → Prop}

theorem insertAt_spec (spans : Spans P rl n) (inside : pos ≤ n) :
    ∃ run, rl.runs[insertAt rl pos]? = some run ∧ sum (rl.runs.take (insertAt rl pos)) ≤ pos ∧
      pos ≤ sum (rl.runs.take (insertAt rl pos)) + run.len := by
  have some := length_pos_iff.mpr spans.filled
  have total := spans.sum
  have step {i : Nat} (bound : i < rl.runs.length) : ∃ run, rl.runs[i]? = Option.some run ∧
        sum (rl.runs.take (i + 1)) = sum (rl.runs.take i) + run.len :=
    ⟨rl.runs[i], List.getElem?_eq_getElem bound, sum_take_succ (List.getElem?_eq_getElem bound)⟩
  unfold insertAt
  rcases find_cases (by rw [total]; exact spans.small) pos with
    ⟨run, there, within, place⟩ | ⟨past, beyond⟩
  · obtain ⟨bound, _⟩ := List.getElem?_eq_some_iff.mp there
    dsimp only
    split
    next left =>
      obtain ⟨before, at_, ends⟩ := step (i := (find rl pos).1 - 1) (by omega)
      rw [Nat.sub_add_cancel left.2] at ends
      exact ⟨before, at_, by omega, by omega⟩
    next =>
      rw [if_neg (by omega)]
      exact ⟨run, there, by omega, by omega⟩
  · simp only [past]
    rw [if_pos ⟨trivial, some⟩]
    obtain ⟨last, at_, ends⟩ := step (i := rl.runs.length - 1) (by omega)
    rw [Nat.sub_add_cancel some, take_length] at ends
    exact ⟨last, at_, by omega, by omega⟩

theorem insert_formats (spans : Spans P rl n) (inside : pos ≤ n) {more : Nat}
    (fits : n + more < word) (inserts : insert rl pos more = some rl') (some : more ≠ 0) :
    ∃ payload, taker rl pos = Option.some payload ∧
    formats rl'.runs = (formats rl.runs).take pos ++ List.replicate more payload ++
        (formats rl.runs).drop pos ∧ lastOf rl'.runs = lastOf rl.runs := by
  obtain ⟨run, there, low, high⟩ := insertAt_spec spans inside
  obtain ⟨bound, isRun⟩ := List.getElem?_eq_some_iff.mp there
  have length : rl.runs.length ≠ 0 := by omega
  have atMost : sum (rl.runs.take (insertAt rl pos)) + run.len ≤ n := by
    rw [← spans.sum, ← sum_take_succ there]
    have := sum_take_drop rl.runs (insertAt rl pos + 1)
    omega
  unfold Doc.Runs.insert at inserts
  rw [if_neg some, if_neg length, Option.some.injEq] at inserts
  subst inserts
  refine ⟨run.payload, by rw [taker, there]; rfl, ?_, ?_⟩
  · have around := runs_around there
    have before : formats rl.runs = formats (rl.runs.take (insertAt rl pos)) ++
        List.replicate run.len run.payload ++ formats (rl.runs.drop (insertAt rl pos + 1)) := by
      rw [← formats_single, ← formats_append, ← formats_append, ← around]
    have after : formats (rl.runs.modify (insertAt rl pos) fun run =>
        { run with len := (run.len + more) % word }) =
        formats (rl.runs.take (insertAt rl pos)) ++ List.replicate (run.len + more) run.payload ++
            formats (rl.runs.drop (insertAt rl pos + 1)) := by
      rw [modify_eq_take_cons_drop bound, isRun, Nat.mod_eq_of_lt (by omega),
        ← singleton_append, ← append_assoc, formats_append, formats_append, formats_single]
    have place : pos = (formats (rl.runs.take (insertAt rl pos))).length +
        (pos - sum (rl.runs.take (insertAt rl pos))) := by
      rw [length_formats]
      omega
    have spliced := splice_replicate (formats (rl.runs.take (insertAt rl pos)))
      (formats (rl.runs.drop (insertAt rl pos + 1))) run.payload more
      (show pos - sum (rl.runs.take (insertAt rl pos)) ≤ run.len by omega)
    rw [← place] at spliced
    rw [after, before]
    exact spliced
  · unfold lastOf
    have same : (rl.runs.modify (insertAt rl pos) fun run =>
        { run with len := (run.len + more) % word }).map (·.payload) = rl.runs.map (·.payload) := by
      refine ext_getElem (by simp) fun j _ _ => ?_
      simp only [getElem_map, getElem_modify]
      split <;> rfl
    rw [same]

/-! ### Merging -/

omit [Payload α] in
theorem mergeStep_formats [DecidableEq α] (many : Bool) (runs written : List (Run α))
    (small : sum written + sum runs < word) (some : ∀ run ∈ runs, run.len ≠ 0 ∨ many = true)
    (full : ∀ run ∈ written, run.len ≠ 0) :
    formats (runs.foldl (mergeStep many) written).reverse = formats written.reverse ++
        formats runs ∧ ∀ run ∈ runs.foldl (mergeStep many) written, run.len ≠ 0 := by
  induction runs generalizing written with
  | nil => exact ⟨by simp [formats], full⟩
  | cons run _ ih =>
    rw [sum_cons] at small
    have here : formats (mergeStep many written run).reverse = formats written.reverse ++
          formats [run] ∧ sum (mergeStep many written run) = sum written + run.len ∧
        ∀ other ∈ mergeStep many written run, other.len ≠ 0 := by
      unfold mergeStep
      by_cases dropped : run.len = 0 ∧ many
      · rw [if_pos dropped]
        exact ⟨by simp [formats_single, dropped.1], by omega, full⟩
      rw [if_neg dropped]
      have filled : run.len ≠ 0 := fun zero =>
        dropped ⟨zero, (some run mem_cons_self).resolve_left (· zero)⟩
      cases written with
      | nil => exact ⟨by simp [formats], by simp, by simpa using filled⟩
      | cons last =>
        rw [sum_cons] at small
        dsimp only
        by_cases same : last.payload = run.payload
        · rw [if_pos same, Nat.mod_eq_of_lt (by omega)]
          refine ⟨?_, by simp; omega, ?_⟩
          · simp only [reverse_cons, formats_append, formats_single,
              append_assoc, same, replicate_append_replicate]
          · rintro other (_ | ⟨_, earlier⟩)
            · dsimp only
              omega
            · exact full other (mem_cons_of_mem _ earlier)
        · rw [if_neg same]
          refine ⟨?_, by simp; omega, ?_⟩
          · simp only [reverse_cons, formats_append]
          rintro other (_ | ⟨_, earlier⟩)
          · exact filled
          · exact full other earlier
    obtain ⟨bytes, isFull⟩ := ih (mergeStep many written run)
      (by omega) (fun other member => some other (mem_cons_of_mem _ member)) here.2.2
    refine ⟨?_, isFull⟩
    rw [foldl_cons, bytes, here.1, append_assoc, ← formats_append]
    rfl

omit [Payload α] in
theorem merged_formats [DecidableEq α] (small : sum runs < word) (some : 0 < sum runs) :
    formats (merged runs) = formats runs ∧ lastOf (merged runs) = (formats runs).getLast? := by
  have filled : ∀ run ∈ runs, run.len ≠ 0 ∨ decide (1 < runs.length) = true := by
    intro run member
    rw [decide_eq_true_eq]
    by_contra neither
    obtain ⟨zero, few⟩ := not_or.mp neither
    match runs, member with
    | [only], member =>
      rw [mem_singleton] at member
      subst member
      simp only [sum_cons, sum_nil] at some
      omega
    | one :: two :: rest, _ =>
      simp only [length_cons] at few
      omega
  obtain ⟨bytes, full⟩ := mergeStep_formats (1 < runs.length) runs []
    (by simpa using small) filled (by simp)
  have kept : merged runs = (runs.foldl (mergeStep (1 < runs.length)) []).reverse := by
    unfold merged
    split
    next none =>
      rw [none] at bytes
      have empty := length_formats runs
      rw [show formats runs = [] by simpa [formats] using bytes.symm] at empty
      simp only [length_nil] at empty
      omega
    next => rfl
  rw [kept]
  refine ⟨by simpa [formats] using bytes, ?_⟩
  have same : formats runs = formats (runs.foldl (mergeStep (1 < runs.length)) []).reverse := by
    simpa [formats] using bytes.symm
  rw [same]
  generalize runs.foldl (mergeStep (1 < runs.length)) [] = written at full
  cases written with
  | nil => rfl
  | cons last =>
    obtain ⟨_, isLen⟩ := Nat.exists_eq_succ_of_ne_zero (full last mem_cons_self)
    rw [reverse_cons, formats_append, formats_single, isLen, replicate_succ']
    simp [lastOf]

/-! ### Formatting -/

omit [Payload α] in
theorem cut_formats {within : Nat} (there : runs[i]? = some run) (inside : within < run.len) :
    formats (cut runs i within) = formats runs ∧ sum ((cut runs i within).take (i + 1)) = sum
      (runs.take i) + within ∧ ∀ j ≤ i, (cut runs i within).take j = runs.take j := by
  obtain ⟨bound, _⟩ := List.getElem?_eq_some_iff.mp there
  have length : (runs.take i).length = i := by
    rw [length_take]
    omega
  have parts : cut runs i within = runs.take i ++
      (⟨within, run.payload⟩ :: ⟨run.len - within, run.payload⟩ :: runs.drop (i + 1)) := by
    simp [cut, there]
  refine ⟨?_, ?_, ?_⟩
  · have both : formats [⟨within, run.payload⟩, ⟨run.len - within, run.payload⟩] =
        formats [run] := by
      rw [formats_single, ← Nat.add_sub_cancel' (le_of_lt inside),
        replicate_add, Nat.add_sub_cancel_left]
      simp [formats, spread]
    have around := runs_around there
    rw [parts, show (⟨within, run.payload⟩ :: ⟨run.len - within, run.payload⟩ ::
      runs.drop (i + 1) : List (Run α)) = [⟨within, run.payload⟩,
        ⟨run.len - within, run.payload⟩] ++ runs.drop (i + 1) from rfl, formats_append,
      formats_append, both, ← formats_append, ← formats_append, ← append_assoc, ← around]
  · rw [parts, take_append, length, Nat.add_sub_cancel_left,
      take_of_length_le (by omega), sum_append]
    simp
  · intro j before
    rw [parts, take_append_of_le_length (by omega), take_take, min_eq_left before]

theorem splitAt_runs (apart : (find rl pos).2 ≠ 0) {idx : Nat}
    (splits : splitAt rl pos = some (idx, rl')) :
    idx = (find rl pos).1 + 1 ∧ rl'.runs = cut rl.runs (find rl pos).1 (find rl pos).2 := by
  unfold Doc.Runs.splitAt at splits
  dsimp only at splits
  rw [if_neg apart] at splits
  obtain ⟨wider, reserves, splits⟩ := bind_eq_some_iff.mp splits
  have sameRuns : wider.runs = rl.runs := by
    unfold reserve at reserves
    split at reserves
    · rw [← Option.some.inj reserves]
    obtain ⟨_, _, fits⟩ := bind_eq_some_iff.mp reserves
    split at fits
    · rw [← Option.some.inj fits]
    · cases fits
  cases splits
  exact ⟨rfl, by rw [sameRuns]⟩

theorem splitAt_formats (spans : Spans P rl n) (inside : pos ≤ n) {idx : Nat}
    (splits : splitAt rl pos = some (idx, rl')) :
    formats rl'.runs = formats rl.runs ∧ sum (rl'.runs.take idx) = pos ∧
      ∀ i, sum (rl.runs.take i) ≤ pos → rl'.runs.take i = rl.runs.take i := by
  have total := spans.sum
  unfold Doc.Runs.splitAt at splits
  rcases find_cases (by rw [total]; exact spans.small) pos with
    ⟨run, there, within, place⟩ | ⟨past, beyond⟩
  · by_cases boundary : (find rl pos).2 = 0
    · dsimp only at splits
      rw [if_pos boundary, Option.some.injEq, Prod.mk.injEq] at splits
      obtain ⟨rfl, rfl⟩ := splits
      exact ⟨rfl, by omega, fun _ _ => rfl⟩
    obtain ⟨rfl, runs⟩ := splitAt_runs boundary splits
    rw [runs]
    obtain ⟨bytes, place', before⟩ := cut_formats there within
    refine ⟨bytes, by omega, fun j atMost => before j ?_⟩
    by_contra later
    have mono := @sum_take_mono _ rl.runs _ _ (show (find rl pos).1 + 1 ≤ j by omega)
    rw [sum_take_succ there] at mono
    omega
  · rw [past] at splits
    obtain ⟨rfl, rfl⟩ : rl.runs.length = idx ∧ rl = rl' := by simpa using splits
    exact ⟨rfl, by rw [take_length]; omega, fun _ _ => rfl⟩

omit [Payload α] in
theorem sum_take_applyRuns (i0 i1 : Nat) (fn : α → α) (j : Nat) :
    sum ((applyRuns i0 i1 fn runs).take j) = sum (runs.take j) := by
  rw [sum, sum, map_take, map_take, map_len_applyRuns]

omit [Payload α] in
theorem applyRuns_formats (i0 i1 : Nat) (fn : α → α) {q : Nat} (inside : q < sum runs) :
    (formats (applyRuns i0 i1 fn runs))[q]? = (formats runs)[q]?.map fun payload =>
      if sum (runs.take i0) ≤ q ∧ q < sum (runs.take i1) then fn payload else payload := by
  obtain ⟨r, run, there, low, high⟩ := run_at inside
  have sums := @sum_take_applyRuns _ runs i0 i1 fn
  have applied : (applyRuns i0 i1 fn runs)[r]? = some (if i0 ≤ r ∧ r < i1 then
      { run with payload := fn run.payload } else run) := by
    simp [applyRuns, there]
  have edge (j : Nat) : sum (runs.take j) ≤ q ↔ j ≤ r := by
    constructor
    · intro before
      by_contra later
      have mono := @sum_take_mono _ runs _ _ (show r + 1 ≤ j by omega)
      rw [sum_take_succ there] at mono
      omega
    · exact fun before => le_trans (sum_take_mono before) low
  rw [formats_at applied (by rw [sums]; exact low) (by rw [sums]; split <;> exact high),
    formats_at there low high, map_some]
  simp only [edge, ← not_le]
  split <;> rfl

theorem apply_formats [DecidableEq α] (spans : Spans P rl n) (room : Room rl 2)
    {less : Nat} (inside : pos + less ≤ n) (positive : less ≠ 0) {fn : α → α}
    (applies : apply rl pos less fn = some rl') :
    (∀ q < n, (formats rl'.runs)[q]? = (formats rl.runs)[q]?.map fun payload =>
      if pos ≤ q ∧ q < pos + less then fn payload else payload) ∧
    lastOf rl'.runs = (formats rl'.runs).getLast? := by
  have small := spans.small
  obtain ⟨i0, first, splits, once, more, _⟩ := spans.splitAt (le_refl 1) room pos
  obtain ⟨i1, second, splitsToo, twice, _⟩ := once.splitAt (Nat.zero_le 1) more (pos + less)
  obtain ⟨bytes, start, _⟩ := splitAt_formats spans (by omega) splits
  obtain ⟨bytesToo, stop, before⟩ := splitAt_formats once inside splitsToo
  unfold Doc.Runs.apply at applies
  rw [if_neg positive, splits, Nat.mod_eq_of_lt (by omega)] at applies
  simp only [bind_eq_bind, bind_some, splitsToo] at applies
  cases applies
  have every : Spans (fun _ => True) second n := twice.weaken fun _ _ => trivial
  have total : sum (applyRuns i0 i1 fn second.runs) = n :=
    (every.applyRuns_spans i0 i1 fun _ _ => trivial).sum
  have merges' := @merged_formats _ (applyRuns i0 i1 fn second.runs) _ (by omega) (by omega)
  obtain ⟨merges, last⟩ := merges'
  dsimp only [Doc.Runs.merge]
  rw [merges]
  refine ⟨fun q below => ?_, last⟩
  rw [applyRuns_formats i0 i1 fn (by rw [twice.sum]; exact below), bytesToo, bytes,
    before i0 (by omega), start, stop]

end MainDob.Proofs.RunLists
