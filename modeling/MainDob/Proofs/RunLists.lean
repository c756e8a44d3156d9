/-
Purpose: The run lists of a document stay in step with its text: each operation
  comes back with runs whose lengths sum to what the text has then, and with
  payloads of the same kind.
Main exports: Spans, Room, find_cases
-/
import MainDob.Doc.Runs
import MainDob.Proofs.PieceTable

namespace MainDob.Proofs.RunLists

open Doc.Runs
open Doc.PieceTable (word growTo rounds)
open Lib.Segments
open PieceTable (growTo_done growTo_power)
open List Option

variable {α : Type}

/-- The bytes of some runs. -/
def sum (runs : List (Run α)) : Nat := (runs.map (·.len)).sum

@[simp] theorem sum_nil : sum ([] : List (Run α)) = 0 := rfl

@[simp] theorem sum_cons (run : Run α) (rest : List (Run α)) :
    sum (run :: rest) = run.len + sum rest := by
  simp [sum]

@[simp] theorem sum_append (left right : List (Run α)) :
    sum (left ++ right) = sum left + sum right := by
  simp [sum]

theorem sum_reverse (runs : List (Run α)) : sum runs.reverse = sum runs := by
  simp [sum, List.sum_reverse]

theorem sum_take_drop (runs : List (Run α)) (i : Nat) :
    sum (runs.take i) + sum (runs.drop i) = sum runs := by
  rw [← sum_append, take_append_drop]

/-- A run as the payload of each of its bytes. -/
def spread (run : Run α) : List α := List.replicate run.len run.payload

theorem length_spread (runs : List (Run α)) : (runs.flatMap spread).length = sum runs := by
  simp [spread, sum, length_flatMap]

theorem map_len_applyRuns (i0 i1 : Nat) (fn : α → α) (runs : List (Run α)) :
    (applyRuns i0 i1 fn runs).map (·.len) = runs.map (·.len) := by
  refine ext_getElem (by simp [applyRuns]) fun i _ _ => ?_
  simp only [applyRuns, getElem_map, getElem_mapIdx]
  split <;> rfl

/-! ## Finding a position -/

theorem foldl_total (runs : List (Run α)) (t : Nat) (small : t + sum runs < word) :
    runs.foldl (fun t run => (t + run.len) % word) t = t + sum runs := by
  induction runs generalizing t with
  | nil => rfl
  | cons _ _ ih =>
    rw [sum_cons] at small
    rw [foldl_cons, Nat.mod_eq_of_lt (by omega), ih _ (by omega), sum_cons, add_assoc]

theorem total_eq {rl : Runlist α} (small : sum rl.runs < word) : total rl = sum rl.runs := by
  have whole := foldl_total rl.runs 0 (by omega)
  rwa [zero_add] at whole

theorem findFrom_eq {runs : List (Run α)} {pos acc : Nat} (i : Nat)
    (reached : acc ≤ pos) (small : acc + sum runs < word) :
    findFrom pos runs i acc = (i + (locate spread runs (pos - acc)).1,
      (locate spread runs (pos - acc)).2) := by
  induction runs generalizing i acc with
  | nil => rfl
  | cons run _ ih =>
    have length : (spread run).length = run.len := length_replicate
    rw [sum_cons] at small
    have noWrap : (acc + run.len) % word = acc + run.len := Nat.mod_eq_of_lt (by omega)
    simp only [findFrom, locate, noWrap, length]
    by_cases here : pos < acc + run.len
    · rw [if_pos here, if_pos (by omega)]
      rfl
    · rw [if_neg here, if_neg (by omega), ih (i + 1) (by omega) (by omega), Nat.sub_add_eq,
        add_assoc i 1, add_comm 1]

theorem find_cases {rl : Runlist α} (small : sum rl.runs < word) (pos : Nat) :
    (∃ run, rl.runs[(find rl pos).1]? = some run ∧ (find rl pos).2 < run.len ∧
      pos = sum (rl.runs.take (find rl pos).1) + (find rl pos).2) ∨
    find rl pos = (rl.runs.length, 0) ∧ sum rl.runs ≤ pos := by
  have found : find rl pos = locate spread rl.runs pos := by
    have whole := @findFrom_eq _ rl.runs pos 0 0 (Nat.zero_le pos) (by omega)
    simpa [find] using whole
  have length : ∀ run : Run α, (spread run).length = run.len := fun run => length_replicate
  rcases @locate_cases _ _ spread rl.runs pos with
    ⟨run, there, inside, place⟩ | ⟨past, beyond⟩
  · rw [length_spread] at place
    rw [length] at inside
    rw [found]
    exact .inl ⟨run, there, inside, place⟩
  · rw [length_spread] at beyond
    rw [found]
    exact .inr ⟨past, beyond⟩

/-! ## Room -/

/-- A list of `n` bytes with a run at least, whose payloads satisfy `P`, in a
vector that doubled from 8 entries and fits into the address space. -/
structure Spans [Payload α] (P : α → Prop) (rl : Runlist α) (n : Nat) :
    Prop where
  filled : rl.runs ≠ []
  sum : sum rl.runs = n
  small : n < word
  each : ∀ run ∈ rl.runs, P run.payload
  stored : rl.runs.length ≤ rl.cap
  power : ∃ k, rl.cap = 2 ^ k
  large : 8 ≤ rl.cap
  narrow : rl.cap * entrySize α < word

/-- There is room for more runs, or for twice the vector. -/
def Room [Payload α] (rl : Runlist α) (more : Nat) : Prop :=
  rl.runs.length + more ≤ rl.cap ∨ rl.cap * 2 * entrySize α < word

instance [Payload α] (rl : Runlist α) (more : Nat) : Decidable (Room rl more) :=
  inferInstanceAs (Decidable (_ ∨ _))

theorem four_le_entrySize [Payload α] : 4 ≤ entrySize α := le_max_left _ _

theorem lt_word_of_narrow [Payload α] {cap : Nat}
    (narrow : cap * entrySize α < word) : cap < word :=
  lt_of_le_of_lt (Nat.le_mul_of_pos_right cap
    (lt_of_lt_of_le (Nat.zero_lt_succ 3) four_le_entrySize)) narrow

namespace Spans

variable [Payload α] {P : α → Prop} {rl : Runlist α} {n : Nat}

section

variable (spans : Spans P rl n)
include spans

theorem replace {runs : List (Run α)} {m : Nat} (some : runs ≠ [])
    (isSum : RunLists.sum runs = m) (small : m < word) (each : ∀ run ∈ runs, P run.payload)
    (stored : runs.length ≤ rl.cap) : Spans P { rl with runs := runs } m :=
  ⟨some, isSum, small, each, stored, spans.power, spans.large, spans.narrow⟩

theorem relabel {runs : List (Run α)} (lengths : runs.map (·.len) = rl.runs.map (·.len))
    (each : ∀ run ∈ runs, P run.payload) : Spans P { rl with runs := runs } n := by
  have length : runs.length = rl.runs.length := by simpa using congrArg List.length lengths
  refine spans.replace ?_ ?_ spans.small each ?_
  · refine ne_nil_of_length_pos ?_
    rw [length]
    exact length_pos_iff.mpr spans.filled
  · rw [← spans.sum]
    simp only [RunLists.sum, lengths]
  · rw [length]
    exact spans.stored

theorem weaken {Q : α → Prop} (wider : ∀ payload, P payload → Q payload) : Spans Q rl n :=
  { spans with each := fun run member => wider _ (spans.each run member) }

theorem reserve {more : Nat} (few : more ≤ 1) (room : Room rl (more + 1)) :
    ∃ cap, Doc.Runs.reserve rl (rl.runs.length + 1) = Option.some { rl with cap := cap } ∧
      Spans P { rl with cap := cap } n ∧ rl.runs.length + 1 ≤ cap ∧
      (rl.runs.length + 1 + more ≤ cap ∨ cap * 2 * entrySize α < word) := by
  have stored := spans.stored
  have large := spans.large
  unfold Doc.Runs.reserve
  by_cases enough : rl.runs.length + 1 ≤ rl.cap
  · refine ⟨rl.cap, if_pos enough, spans, enough, ?_⟩
    rcases room with fits | doubles
    · exact .inl (by omega)
    · exact .inr doubles
  have doubles : rl.cap * 2 * entrySize α < word := by
    rcases room with fits | doubles
    · omega
    · exact doubles
  have narrow := lt_word_of_narrow doubles
  refine ⟨rl.cap * 2, ?_, ?_, by omega, .inl (by omega)⟩
  · rw [if_neg enough, if_pos (by omega), Nat.mod_eq_of_lt narrow]
    simp [rounds, growTo_done 32 (show rl.runs.length + 1 ≤ rl.cap * 2 by omega), doubles]
  obtain ⟨k, power⟩ := spans.power
  refine ⟨spans.filled, spans.sum, spans.small, spans.each, ?_, ⟨k + 1, ?_⟩, ?_, doubles⟩
  · dsimp only
    omega
  · rw [Nat.pow_succ, power]
  · dsimp only
    omega

end

end Spans

/-! ## Cutting a run -/

theorem sum_cut {runs : List (Run α)} {idx within : Nat} {run : Run α}
    (there : runs[idx]? = some run) (inside : within < run.len) :
    sum (cut runs idx within) = sum runs := by
  obtain ⟨bound, isThere⟩ := List.getElem?_eq_some_iff.mp there
  have whole := sum_take_drop runs idx
  rw [drop_eq_getElem_cons bound, isThere, sum_cons] at whole
  simp only [cut, there, toList_some, flatMap_cons,
    flatMap_nil, append_nil, sum_append, sum_cons, sum_nil]
  omega

theorem length_cut {runs : List (Run α)} {idx : Nat} (within : Nat) {run : Run α}
    (there : runs[idx]? = some run) : (cut runs idx within).length = runs.length + 1 := by
  obtain ⟨bound, _⟩ := List.getElem?_eq_some_iff.mp there
  simp [cut, there]
  omega

theorem payload_cut {P : α → Prop} {runs : List (Run α)} (idx within : Nat)
    (each : ∀ run ∈ runs, P run.payload) : ∀ run ∈ cut runs idx within, P run.payload := by
  intro run member
  simp only [cut, mem_append, mem_flatMap, mem_toList, mem_cons, not_mem_nil, or_false] at member
  rcases member with (before | ⟨old, there, rfl | rfl⟩) | after
  · exact each run (mem_of_mem_take before)
  · exact each old (mem_of_getElem? there)
  · exact each old (mem_of_getElem? there)
  · exact each run (mem_of_mem_drop after)

theorem getElem?_cut {runs : List (Run α)} {idx : Nat} (within : Nat) {run : Run α}
    (there : runs[idx]? = some run) : (cut runs idx within)[idx]? = some ⟨within, run.payload⟩ ∧
      (cut runs idx within)[idx + 1]? = some ⟨run.len - within, run.payload⟩ := by
  obtain ⟨bound, _⟩ := List.getElem?_eq_some_iff.mp there
  have length : (runs.take idx).length = idx := by
    rw [length_take]
    omega
  simp only [cut, there, toList_some, flatMap_cons, flatMap_nil, append_nil, append_assoc]
  constructor
  · rw [List.getElem?_append_right (by omega), length, Nat.sub_self]
    rfl
  · rw [List.getElem?_append_right (by omega), length, Nat.add_sub_cancel_left]
    rfl

namespace Spans

variable [Payload α] {P : α → Prop} {rl : Runlist α} {n : Nat}

theorem splitAt (spans : Spans P rl n) {more : Nat} (few : more ≤ 1) (room : Room rl (more + 1))
    (pos : Nat) : ∃ idx rl', Doc.Runs.splitAt rl pos = Option.some (idx, rl') ∧ Spans P rl' n ∧
    Room rl' more ∧ ((find rl pos).2 ≠ 0 → ∃ right, rl'.runs[idx]? = Option.some right) := by
  have small : RunLists.sum rl.runs < word := by
    rw [spans.sum]
    exact spans.small
  unfold Doc.Runs.splitAt
  dsimp only
  by_cases boundary : (find rl pos).2 = 0
  · refine ⟨_, rl, if_pos boundary, spans, ?_, fun apart => absurd boundary apart⟩
    rcases room with fits | doubles
    · exact .inl (by omega)
    · exact .inr doubles
  rcases find_cases small pos with ⟨run, there, inside, _⟩ | ⟨past, _⟩
  · obtain ⟨cap, reserves, wider, enough, left⟩ := spans.reserve few room
    have length := length_cut (find rl pos).2 there
    rw [if_neg boundary, reserves]
    refine ⟨_, _, rfl, wider.replace ?_ ?_ spans.small ?_ ?_, ?_, fun _ =>
      ⟨_, (getElem?_cut _ there).2⟩⟩
    · exact ne_nil_of_length_pos (by rw [length]; omega)
    · rw [← spans.sum]
      exact sum_cut there inside
    · exact payload_cut _ _ spans.each
    · rw [length]
      exact enough
    · simpa only [Room, length] using left
  · rw [past] at boundary
    exact absurd rfl boundary

end Spans

/-! ## Merging -/

section Merge

variable [DecidableEq α]

theorem foldl_mergeStep {P : α → Prop} (many : Bool) (runs written : List (Run α))
    (small : sum written + sum runs < word) (each : ∀ run ∈ runs, P run.payload)
    (eachWritten : ∀ run ∈ written, P run.payload) :
    sum (runs.foldl (mergeStep many) written) = sum written + sum runs ∧
      (runs.foldl (mergeStep many) written).length ≤ written.length + runs.length ∧
      ∀ run ∈ runs.foldl (mergeStep many) written, P run.payload := by
  induction runs generalizing written with
  | nil => exact ⟨rfl, le_refl _, eachWritten⟩
  | cons run _ ih =>
    rw [sum_cons] at small
    have here : sum (mergeStep many written run) = sum written + run.len ∧
        (mergeStep many written run).length ≤ written.length + 1 ∧
        ∀ other ∈ mergeStep many written run, P other.payload := by
      have isP := each run mem_cons_self
      unfold mergeStep
      by_cases dropped : run.len = 0 ∧ many
      · rw [if_pos dropped]
        exact ⟨by omega, by omega, eachWritten⟩
      rw [if_neg dropped]
      cases written with
      | nil => exact ⟨by simp, by simp, by simpa using isP⟩
      | cons last =>
        rw [sum_cons] at small
        dsimp only
        by_cases same : last.payload = run.payload
        · rw [if_pos same, Nat.mod_eq_of_lt (by omega)]
          refine ⟨by simp; omega, by simp, fun other member => ?_⟩
          rcases mem_cons.mp member with rfl | earlier
          · exact eachWritten last mem_cons_self
          · exact eachWritten other (mem_cons_of_mem _ earlier)
        · rw [if_neg same]
          refine ⟨by simp; omega, by simp, fun other member => ?_⟩
          rcases mem_cons.mp member with rfl | earlier
          · exact isP
          · exact eachWritten other earlier
    obtain ⟨isSum, short, kind⟩ := ih (mergeStep many written run) (by omega)
      (fun other member => each other (mem_cons_of_mem _ member)) here.2.2
    refine ⟨?_, ?_, kind⟩
    · rw [foldl_cons, isSum, here.1, sum_cons]
      omega
    · rw [foldl_cons, length_cons]
      omega

theorem merged_spec {P : α → Prop} {runs : List (Run α)}
    (small : sum runs < word) (each : ∀ run ∈ runs, P run.payload) :
    sum (merged runs) = sum runs ∧ (merged runs).length ≤ runs.length ∧
      (∀ run ∈ merged runs, P run.payload) ∧ (runs ≠ [] → merged runs ≠ []) := by
  obtain ⟨isSum, short, kind⟩ := foldl_mergeStep (1 < runs.length) runs []
    (by simpa using small) each (by simp)
  rw [sum_nil, zero_add] at isSum
  rw [length_nil, zero_add] at short
  unfold merged
  split
  case h_1 none =>
      rw [reverse_eq_nil_iff] at none
      rw [none] at isSum
      cases runs with
      | nil => exact ⟨rfl, le_refl 0, by simp, fun some => absurd rfl some⟩
      | cons run =>
        refine ⟨?_, by simp, ?_, by simp⟩
        · simpa using isSum
        · simpa using each run mem_cons_self
  case h_2 kept some =>
      refine ⟨?_, ?_, fun run member => ?_, fun _ => some⟩
      · rw [sum_reverse]
        exact isSum
      · rw [length_reverse]
        exact short
      · exact kind run (mem_reverse.mp member)

end Merge

namespace Spans

variable [Payload α] [DecidableEq α] {P : α → Prop} {rl : Runlist α} {n : Nat}

theorem merge (spans : Spans P rl n) : Spans P (merge rl) n := by
  obtain ⟨isSum, short, each, kept⟩ := merged_spec (by rw [spans.sum]; exact spans.small) spans.each
  exact spans.replace (kept spans.filled) (isSum.trans spans.sum) spans.small each
    (le_trans short spans.stored)

omit [DecidableEq α] in
theorem insert (spans : Spans P rl n) (pos : Nat) {more : Nat} (fits : n + more < word) :
    ∃ rl', insert rl pos more = Option.some rl' ∧
    Spans P rl' (n + more) ∧ ∀ further, Room rl further → Room rl' further := by
  have length : rl.runs.length ≠ 0 := fun none => spans.filled (eq_nil_of_length_eq_zero none)
  have small : RunLists.sum rl.runs < word := by
    rw [spans.sum]
    exact spans.small
  unfold Doc.Runs.insert
  by_cases nothing : more = 0
  · subst nothing
    exact ⟨rl, if_pos rfl, spans, fun _ => id⟩
  rw [if_neg nothing, if_neg length]
  have bound : insertAt rl pos < rl.runs.length := by
    unfold insertAt
    rcases find_cases small pos with ⟨run, there, inside, _⟩ | ⟨past, _⟩
    · obtain ⟨isIn, _⟩ := List.getElem?_eq_some_iff.mp there
      dsimp only
      split
      · omega
      · split <;> omega
    · simp only [past]
      split
      · omega
      · split <;> omega
  have whole := sum_take_drop rl.runs (insertAt rl pos)
  rw [drop_eq_getElem_cons bound, sum_cons, spans.sum] at whole
  refine ⟨_, rfl, spans.replace ?_ ?_ fits ?_ ?_, fun further room => ?_⟩
  · exact ne_nil_of_length_pos (by rw [length_modify]; omega)
  · rw [modify_eq_take_cons_drop bound, sum_append, sum_cons]
    dsimp only
    rw [Nat.mod_eq_of_lt (by omega)]
    omega
  · intro run member
    rw [modify_eq_take_cons_drop bound] at member
    rcases mem_append.mp member with before | here
    · exact spans.each run (mem_of_mem_take before)
    rcases mem_cons.mp here with rfl | after
    · exact spans.each rl.runs[insertAt rl pos] (getElem_mem bound)
    · exact spans.each run (mem_of_mem_drop after)
  · rw [length_modify]
    exact spans.stored
  · simpa only [Room, length_modify] using room

end Spans

/-! ## Deleting -/

theorem deleteFrom_spec {P : α → Prop} {runs : List (Run α)}
    {within remaining : Nat} (inside : ∀ run ∈ runs.head?, within ≤ run.len)
    (fits : within + remaining ≤ sum runs) (each : ∀ run ∈ runs, P run.payload) :
    sum (deleteFrom within remaining runs) + remaining = sum runs ∧
      (deleteFrom within remaining runs).length ≤ runs.length ∧
      ∀ run ∈ deleteFrom within remaining runs, P run.payload := by
  induction runs generalizing within remaining with
  | nil =>
    rw [sum_nil] at fits
    exact ⟨by simp [deleteFrom]; omega, le_refl 0, by simp [deleteFrom]⟩
  | cons run rest ih =>
    rw [sum_cons] at fits
    have later : ∀ other ∈ rest, P other.payload := fun other member =>
      each other (mem_cons_of_mem _ member)
    unfold deleteFrom
    by_cases done : remaining = 0
    · rw [if_pos done, done]
      exact ⟨rfl, le_refl _, each⟩
    rw [if_neg done]
    obtain ⟨taken, isTaken, most, all, some⟩ : ∃ taken,
        (if run.len - within < remaining then run.len - within
          else remaining) = taken ∧ taken ≤ run.len - within ∧
        taken ≤ remaining ∧ remaining - taken ≤ sum rest := by
      split <;> exact ⟨_, rfl, by omega, by omega, by omega⟩
    obtain ⟨isSum, short, kind⟩ := @ih 0
      (remaining - taken) (fun _ _ => Nat.zero_le _) (by omega) later
    simp only [isTaken]
    by_cases gone : run.len - taken = 0
    · rw [if_pos gone]
      refine ⟨?_, le_trans short (Nat.le_succ _), kind⟩
      rw [sum_cons]
      omega
    · rw [if_neg gone]
      refine ⟨?_, Nat.succ_le_succ short, fun other member => ?_⟩
      · rw [sum_cons, sum_cons]
        dsimp only
        omega
      · rcases mem_cons.mp member with rfl | after
        · exact each run mem_cons_self
        · exact kind other after

theorem deleted_spec {P : α → Prop} {rl : Runlist α} {pos n : Nat}
    (small : sum rl.runs < word) (some : pos < sum rl.runs) (fits : pos + n ≤ sum rl.runs)
    (each : ∀ run ∈ rl.runs, P run.payload) : sum (deleted rl pos n) + n = sum rl.runs ∧
    (deleted rl pos n).length ≤ rl.runs.length ∧ ∀ run ∈ deleted rl pos n, P run.payload := by
  rcases find_cases small pos with ⟨run, there, inside, place⟩ | ⟨_, beyond⟩
  · obtain ⟨bound, isThere⟩ := List.getElem?_eq_some_iff.mp there
    have whole := sum_take_drop rl.runs (find rl pos).1
    have first : (rl.runs.drop (find rl pos).1).head? = Option.some run := by
      rw [List.head?_drop]
      exact there
    obtain ⟨isSum, short, kind⟩ := @deleteFrom_spec _ P
      (rl.runs.drop (find rl pos).1) (find rl pos).2 n (by
        intro other isFirst
        rw [first] at isFirst
        cases isFirst
        exact le_of_lt inside) (by omega)
      (fun other member => each other (mem_of_mem_drop member))
    simp only [deleted, sum_append, length_append, mem_append]
    refine ⟨by omega, ?_, fun other member => ?_⟩
    · rw [length_drop] at short
      rw [length_take]
      omega
    · rcases member with before | after
      · exact each other (mem_of_mem_take before)
      · exact kind other after
  · omega

namespace Spans

variable [Payload α] [DecidableEq α] {P : α → Prop} {rl : Runlist α} {n : Nat}

theorem delete (spans : Spans P rl n) (zero : P Payload.zero) {pos less : Nat}
    (noWrap : pos + less < word) :
    ∃ rl', delete rl pos less = Option.some rl' ∧ Spans P rl' (n - min less (n - pos)) := by
  have small := spans.small
  have isTotal : total rl = n := by rw [total_eq (by rw [spans.sum]; exact small), spans.sum]
  unfold Doc.Runs.delete
  rw [isTotal, Nat.mod_eq_of_lt noWrap]
  by_cases nothing : less = 0
  · rw [if_pos nothing]
    refine ⟨rl, rfl, ?_⟩
    simpa [nothing] using spans
  rw [if_neg nothing]
  by_cases past : pos ≥ n
  · rw [if_pos past]
    refine ⟨rl, rfl, ?_⟩
    rw [show n - min less (n - pos) = n by omega]
    exact spans
  rw [if_neg past]
  obtain ⟨taken, isTaken, clipped⟩ : ∃ taken,
      (if pos + less > n then n - pos else less) = taken ∧ taken = min less (n - pos) := by
    split <;> exact ⟨_, rfl, by omega⟩
  simp only [isTaken, ← clipped]
  obtain ⟨isSum, short, kind⟩ := @deleted_spec _ P rl pos taken (by rw [spans.sum]; exact small)
    (by rw [spans.sum]; omega) (by rw [spans.sum]; omega) spans.each
  rw [spans.sum] at isSum
  obtain ⟨sumMerged, shortMerged, kindMerged, kept⟩ := merged_spec (by omega) kind
  by_cases gone : (Doc.Runs.merged (deleted rl pos taken)).length = 0
  · have zeroLeft : n - taken = 0 := by
      rw [eq_nil_of_length_eq_zero gone, sum_nil] at sumMerged
      omega
    simp only [Doc.Runs.merge, gone, if_true, resetSingle]
    have fits : 1 ≤ rl.cap := le_trans (by decide) spans.large
    simp only [Doc.Runs.reserve, if_pos fits, bind_eq_bind, bind_some]
    refine ⟨_, rfl, spans.replace (by simp) ?_ (by omega) ?_ fits⟩
    · simp [zeroLeft]
    · simpa using zero
  · simp only [Doc.Runs.merge, gone, if_false]
    exact ⟨_, rfl, spans.replace (ne_nil_of_length_pos (Nat.pos_of_ne_zero gone))
      (sumMerged.trans (by omega)) (by omega) kindMerged
      (le_trans shortMerged (le_trans short spans.stored))⟩

/-! ## Formatting and copying -/

omit [DecidableEq α] in
theorem applyRuns_spans (spans : Spans P rl n) (i0 i1 : Nat) {fn : α → α}
    (kind : ∀ payload, P payload → P (fn payload)) :
    Spans P { rl with runs := applyRuns i0 i1 fn rl.runs } n := by
  refine spans.relabel (map_len_applyRuns i0 i1 fn rl.runs) fun run member => ?_
  obtain ⟨_, bound, rfl⟩ := mem_iff_getElem.mp member
  simp only [applyRuns, length_mapIdx] at bound
  simp only [applyRuns, getElem_mapIdx]
  split
  · exact kind _ (spans.each _ (getElem_mem bound))
  · exact spans.each _ (getElem_mem bound)

theorem apply (spans : Spans P rl n) (room : Room rl 2) (pos less : Nat)
    (fn : α → α) (kind : ∀ payload, P payload → P (fn payload)) :
    ∃ rl', apply rl pos less fn = Option.some rl' ∧ Spans P rl' n := by
  unfold Doc.Runs.apply
  by_cases nothing : less = 0
  · exact ⟨rl, if_pos nothing, spans⟩
  obtain ⟨i0, _, splits, once, more, _⟩ := spans.splitAt (le_refl 1) room pos
  obtain ⟨i1, _, splitsToo, twice, _⟩ :=
    once.splitAt (Nat.zero_le 1) more ((pos + less) % word)
  rw [if_neg nothing]
  refine ⟨_, ?_, (twice.applyRuns_spans i0 i1 kind).merge⟩
  simp only [splits, splitsToo, bind_eq_bind, bind_some]
  rfl

end Spans

theorem growTo_least {fuel nc need grown : Nat} (ends : growTo fuel nc need = some grown) :
    grown = nc ∨ nc < need ∧ grown < 2 * need := by
  induction fuel generalizing nc with
  | zero => cases ends
  | succ _ ih =>
    by_cases short : nc < need
    · rw [growTo, if_pos short] at ends
      have most : nc * 2 % word ≤ nc * 2 := Nat.mod_le _ _
      rcases ih ends with same | ⟨_, less⟩
      · exact .inr ⟨short, by omega⟩
      · exact .inr ⟨short, less⟩
    · rw [growTo, if_neg short] at ends
      cases ends
      exact .inl rfl

theorem Spans.copy [Payload α] {P : α → Prop} {rl : Runlist α} {n : Nat} (spans : Spans P rl n) :
    ∃ rl', Doc.Runs.copy rl = some rl' ∧ rl'.runs = rl.runs ∧ Spans P rl' n := by
  have length : rl.runs.length ≠ 0 := fun none => spans.filled (eq_nil_of_length_eq_zero none)
  obtain ⟨k, power⟩ := spans.power
  have narrow := spans.narrow
  have stored := spans.stored
  have large := spans.large
  have bound : rl.cap ≤ 2 ^ 30 := by
    have four := Nat.mul_le_mul_left rl.cap (four_le_entrySize (α := α))
    simp only [word] at narrow
    omega
  obtain ⟨j, _, ends, enough⟩ := @growTo_power rounds 3 rl.runs.length
    (by omega) (by decide) (by omega)
  have least : 8 ≤ 2 ^ j ∧ 2 ^ j ≤ rl.cap := by
    rcases growTo_least ends with eight | ⟨more, less⟩
    · omega
    refine ⟨by omega, ?_⟩
    rw [power] at stored ⊢
    have below : 2 ^ j < 2 ^ (k + 1) := by
      omega
    exact Nat.pow_le_pow_right (by decide)
      (Nat.le_of_lt_succ ((Nat.pow_lt_pow_iff_right (by decide)).mp below))
  have narrowToo : 2 ^ j * entrySize α < word :=
    lt_of_le_of_lt (Nat.mul_le_mul_right _ least.2) narrow
  refine ⟨⟨rl.runs, 2 ^ j⟩, ?_, rfl, spans.filled, spans.sum, spans.small,
    spans.each, enough, ⟨j, rfl⟩, least.1, narrowToo⟩
  have grows : ¬ rl.runs.length ≤ (empty : Runlist α).cap :=
    fun none => length (Nat.le_zero.mp none)
  have start : growTo rounds (if (empty : Runlist α).cap ≠ 0 then
      (empty : Runlist α).cap * 2 % word else 8) rl.runs.length = some (2 ^ j) := ends
  unfold Doc.Runs.copy
  rw [if_neg length, Doc.Runs.reserve, if_neg grows, start]
  simp [narrowToo]

end MainDob.Proofs.RunLists
