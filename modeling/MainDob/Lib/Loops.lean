/-
Purpose: Loops that need not end. A round leads to the next state or to a result; what a loop
  returns does not depend on how long it is run.
Main exports: run, Returns, Ends
-/
import Mathlib.Data.Set.Finite.Basic
import Mathlib.Logic.Function.Iterate

namespace MainDob.Lib.Loops

variable {σ β : Type}

/-! ### Rounds -/

/-- The result of a loop that takes no more than so many rounds. -/
def run (step : σ → σ ⊕ β) : Nat → σ → Option β
  | 0, _ => none
  | rounds + 1, s =>
    match step s with
    | .inl s => run step rounds s
    | .inr result => some result

def Returns (step : σ → σ ⊕ β) (s : σ) (result : β) : Prop :=
  ∃ rounds, run step rounds s = some result

def Ends (step : σ → σ ⊕ β) (s : σ) : Prop := ∃ result, Returns step s result

/-- The state a round starts in, where the loop gets there. -/
def after (step : σ → σ ⊕ β) : Nat → σ → Option σ
  | 0, s => some s
  | k + 1, s =>
    match step s with
    | .inl s => after step k s
    | .inr _ => none

variable {step : σ → σ ⊕ β}

variable {s s' : σ}

theorem run_goes (goes : step s = .inl s') (rounds : Nat) :
    run step (rounds + 1) s = run step rounds s' := by
  rw [run, goes]

variable {result : β}

theorem run_stops (stops : step s = .inr result)
    (rounds : Nat) : run step (rounds + 1) s = some result := by
  rw [run, stops]

theorem run_more : ∀ {rounds : Nat} {s : σ} {result : β} (more : Nat),
    run step rounds s = some result → run step (rounds + more) s = some result := by
  intro rounds
  induction rounds with
  | zero =>
    intro s result more done
    cases done
  | succ _ ih =>
    intro s result more done
    rw [Nat.succ_add_eq_add_succ, Nat.add_succ]
    cases round : step s with
    | inl =>
      rw [run_goes round] at done ⊢
      exact ih more done
    | inr =>
      rw [run_stops round] at done ⊢
      exact done

theorem Returns.unique {other : β} (first : Returns step s result)
    (second : Returns step s other) : result = other := by
  obtain ⟨m, first⟩ := first
  obtain ⟨n, second⟩ := second
  have both := run_more n first
  rw [Nat.add_comm, run_more m second] at both
  exact (Option.some.inj both).symm

theorem returns_goes (goes : step s = .inl s') :
    Returns step s result ↔ Returns step s' result := by
  constructor
  · rintro ⟨rounds, done⟩
    cases rounds with
    | zero => cases done
    | succ rounds => exact ⟨rounds, by rwa [run_goes goes] at done⟩
  · rintro ⟨rounds, _⟩
    exact ⟨rounds + 1, by rwa [run_goes goes]⟩

theorem returns_stops (stops : step s = .inr result) : Returns step s result :=
  ⟨1, run_stops stops 0⟩

theorem after_goes (goes : step s = .inl s') (k : Nat) :
    after step (k + 1) s = after step k s' := by
  rw [after, goes]

theorem after_stops (stops : step s = .inr result) (k : Nat) : after step (k + 1) s = none := by
  rw [after, stops]

theorem after_next : ∀ (k : Nat) (s : σ), after step (k + 1) s = match after step k s with
    | none => none
    | some t =>
      match step t with
      | .inl t' => some t'
      | .inr _ => none := by
  intro k
  induction k with
  | zero =>
    intro s
    cases round : step s <;> simp only [after, round]
  | succ _ ih =>
    intro s
    cases round : step s with
    | inl => rw [after_goes round, after_goes round, ih]
    | inr => rw [after_stops round, after_stops round]

theorem returns_iff : Returns step s result ↔
    ∃ k t, after step k s = some t ∧ step t = .inr result := by
  constructor
  · rintro ⟨rounds, done⟩
    induction rounds generalizing s with
    | zero => cases done
    | succ _ ih =>
      cases round : step s with
      | inl =>
        rw [run_goes round] at done
        obtain ⟨k, t, _, stops⟩ := ih done
        exact ⟨k + 1, t, by rwa [after_goes round], stops⟩
      | inr =>
        rw [run_stops round] at done
        cases done
        exact ⟨0, s, rfl, round⟩
  · rintro ⟨k, _, arrives, stops⟩
    induction k generalizing s with
    | zero =>
      cases arrives
      exact returns_stops stops
    | succ _ ih =>
      cases round : step s with
      | inl =>
        rw [after_goes round] at arrives
        exact (returns_goes round).mpr (ih arrives)
      | inr =>
        rw [after_stops round] at arrives
        cases arrives

theorem ends_iff : Ends step s ↔ ∃ k, after step k s = none := by
  constructor
  · rintro ⟨_, returns⟩
    obtain ⟨k, _, arrives, stops⟩ := returns_iff.mp returns
    refine ⟨k + 1, ?_⟩
    rw [after_next, arrives]
    dsimp only
    rw [stops]
  rintro ⟨k, missing⟩
  induction k with
  | zero => cases missing
  | succ k ih =>
    cases arrives : after step k s with
    | none => exact ih arrives
    | some t =>
      rw [after_next, arrives] at missing
      cases round : step t with
      | inl =>
        dsimp only at missing
        rw [round] at missing
        cases missing
      | inr result => exact ⟨result, returns_iff.mpr ⟨k, t, arrives, round⟩⟩

/-! ### Walks -/

variable {α : Type}

/-- While the walk goes on it meets no place twice. -/
def Apart (next : α → α) (goes : α → Prop) (start : α) : Prop :=
  ∀ i j, i < j → (∀ k ≤ j, goes (next^[k] start)) →
    next^[i] start ≠ next^[j] start

section

variable {next : α → α} {goes : α → Prop} {start : α}

theorem goes_of_meet {i j : Nat} (less : i < j) (before : ∀ k ≤ j, goes (next^[k] start))
    (meets : next^[i] start = next^[j] start) : ∀ k, goes (next^[k] start) := by
  intro k
  induction k using Nat.strong_induction_on with
  | _ k ih =>
    rcases lt_or_ge j k with late | early
    · have back : next^[k] start = next^[k - j + i] start := by
        rw [Function.iterate_add_apply, meets, ← Function.iterate_add_apply,
          Nat.sub_add_cancel (le_of_lt late)]
      rw [back]
      exact ih _ (by omega)
    · exact before k early

theorem apart_iff (finite : Set.Finite {place | goes place}) :
    Apart next goes start ↔ ∃ k, ¬ goes (next^[k] start) := by
  constructor
  · intro apart
    by_contra always
    have on : ∀ k, goes (next^[k] start) := by
      intro k
      by_contra stops
      exact always ⟨k, stops⟩
    have injective : Function.Injective fun k => next^[k] start := by
      intro i j same
      rcases Nat.lt_trichotomy i j with less | equal | more
      · exact absurd same (apart i j less fun k _ => on k)
      · exact equal
      · exact absurd same.symm (apart j i more fun k _ => on k)
    exact Set.infinite_of_injective_forall_mem injective on finite
  · rintro ⟨k, stops⟩ _ _ less before meets
    exact stops (goes_of_meet less before meets k)

end

end MainDob.Lib.Loops
