/-
Purpose: An edit history with a bounded past: recording a new state, going back and going forward
  again.
Main exports: History, record, undo
-/
import Mathlib.Data.List.Induction

namespace MainDob.Lib

open List

universe u

/-- A present state between the states before it, the latest first, and those
that were left by going back, the next one first. -/
structure History (State : Type u) where
  past : List State
  now : State
  future : List State

namespace History

variable {State : Type u}

/-- A new state.  At most `limit` earlier ones are kept, and there is nothing to
go forward to. -/
def record (limit : Nat) (h : History State) (state : State) : History State :=
  ⟨(h.now :: h.past).take limit, state, []⟩

/-- One state back. -/
def undo (h : History State) : Option (History State) :=
  match h.past with
  | [] => none
  | last :: before => some ⟨before, last, h.now :: h.future⟩

/-- One state forward. -/
def redo (h : History State) : Option (History State) :=
  match h.future with
  | [] => none
  | next :: after => some ⟨h.now :: h.past, next, after⟩

/-- A step taken a number of times. -/
def times (step : History State → Option (History State)) :
    Nat → History State → Option (History State)
  | 0, h => some h
  | k + 1, h => (step h).bind (times step k)

/-- New states one after the other. -/
def records (limit : Nat) (h : History State) (states : List State) :
    History State :=
  states.foldl (record limit) h

theorem records_append (limit : Nat) (h : History State) (before after : List State) :
    records limit h (before ++ after) = records limit (records limit h before) after :=
  foldl_append

theorem undos_past (back before : List State) (now : State) (future : List State) :
    times undo back.length ⟨back ++ before, now, future⟩ = some ⟨before,
      (now :: back).getLast (cons_ne_nil _ _), (now :: back).dropLast.reverse ++ future⟩ := by
  induction back generalizing now future with
  | nil => rfl
  | cons last _ ih =>
    have rest := ih last (now :: future)
    simp only [length_cons, times, cons_append, undo, Option.bind_some, rest]
    simp

theorem redos_future (ahead after past : List State) (now : State) : times redo ahead.length
    ⟨past, now, ahead ++ after⟩ = some ⟨(now :: ahead).dropLast.reverse ++ past,
        (now :: ahead).getLast (cons_ne_nil _ _), after⟩ := by
  induction ahead generalizing now past with
  | nil => rfl
  | cons next _ ih =>
    have rest := ih (now :: past) next
    simp only [length_cons, times, cons_append, redo, Option.bind_some, rest]
    simp

section

variable (limit : Nat) (h : History State)
include limit h

theorem records_eq {states : List State} (few : states.length ≤ limit) (some : states ≠ []) :
    records limit h states = ⟨(h.now :: states).dropLast.reverse ++ h.past.take
          (limit - states.length), (h.now :: states).getLast (cons_ne_nil _ _), []⟩ := by
  induction states using List.reverseRecOn with
  | nil => exact absurd rfl some
  | append_singleton states last ih =>
    rw [length_append, length_singleton] at few
    rw [records_append]
    by_cases none : states = []
    · subst none
      cases limit with
      | zero => simp at few
      | succ => simp [records, record]
    rw [ih (by omega) none]
    have parts : (h.now :: states).dropLast ++
        [(h.now :: states).getLast (cons_ne_nil _ _)] = h.now :: states :=
      dropLast_concat_getLast _
    have whole : (h.now :: (states ++ [last])).dropLast = h.now :: states := by
      rw [← cons_append, dropLast_concat]
    have newest : (h.now :: states).getLast (cons_ne_nil _ _) ::
        (h.now :: states).dropLast.reverse = (h.now :: states).reverse := by
      conv_rhs => rw [← parts]
      simp
    simp only [records, foldl_cons, foldl_nil, record, whole]
    rw [← cons_append, newest, take_append, take_of_length_le (by simpa using few), take_take]
    simp only [length_reverse, length_cons, length_append, length_nil, Nat.zero_add]
    rw [Nat.min_eq_left (by omega)]
    simp [getLast_cons]

theorem now_records (states : List State) :
    (records limit h states).now = (h.now :: states).getLast (cons_ne_nil _ _) := by
  induction states generalizing h with
  | nil => rfl
  | cons state _ ih =>
    exact ih (record limit h state)

theorem undos_records {states : List State} (few : states.length ≤ limit) :
    ∃ past future, times undo states.length (records limit h states) =
      some ⟨past, h.now, states ++ future⟩ := by
  by_cases none : states = []
  · subst none
    exact ⟨h.past, h.future, rfl⟩
  have back := undos_past (h.now :: states).dropLast.reverse (h.past.take (limit - states.length))
    ((h.now :: states).getLast (cons_ne_nil _ _)) []
  have whole : (h.now :: states).getLast (cons_ne_nil _ _) ::
      (h.now :: states).dropLast.reverse = (h.now :: states).reverse := by
    conv_rhs => rw [← dropLast_concat_getLast (cons_ne_nil h.now states)]
    simp
  refine ⟨h.past.take (limit - states.length), [], ?_⟩
  rw [records_eq limit h few none]
  simp only [length_reverse, length_dropLast, length_cons,
    Nat.add_sub_cancel, whole, getLast_reverse, head_cons] at back
  rw [back]
  simp

end

theorem redos_undone (past : List State) (now : State) (before after future : List State) :
    ∃ past', times redo before.length ⟨past, now, before ++ after ++ future⟩ =
      some ⟨past', (now :: before).getLast (cons_ne_nil _ _), after ++ future⟩ := by
  rw [append_assoc]
  exact ⟨_, redos_future before (after ++ future) past now⟩

end History

end MainDob.Lib
