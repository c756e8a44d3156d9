/-
Purpose: Machines that answer calls, and when one of them answers as another does.
Main exports: answers, answers_same, answers_append
-/

namespace MainDob.Lib

universe u v

variable {Call : Type u} {Answer : Type v} {σ τ : Type}

/-- The answers to some calls, and the state after them. -/
def answers (step : σ → Call → Answer × σ) : σ → List Call → List Answer × σ
  | s, [] => ([], s)
  | s, c :: calls =>
    let (a, next) := step s c
    let (as, last) := answers step next calls
    (a :: as, last)

theorem mem_answers_cons {step : σ → Call → Answer × σ} {s : σ} {c : Call} {calls : List Call}
    {a : Answer} : a ∈ (answers step s (c :: calls)).1 ↔
      a = (step s c).1 ∨ a ∈ (answers step (step s c).2 calls).1 :=
  List.mem_cons

theorem answers_same (one : σ → Call → Answer × σ) (two : τ → Call → Answer × τ)
    (related : σ → τ → Prop) {calls : List Call} (each : ∀ s t, related s t → ∀ c ∈ calls,
      (one s c).1 = (two t c).1 ∧ related (one s c).2 (two t c).2) {s : σ} {t : τ}
    (start : related s t) : (answers one s calls).1 = (answers two t calls).1 ∧
      related (answers one s calls).2 (answers two t calls).2 := by
  induction calls generalizing s t with
  | nil => exact ⟨rfl, start⟩
  | cons c calls ih =>
    obtain ⟨same, after⟩ := each s t start c List.mem_cons_self
    obtain ⟨rest, last⟩ := ih (fun s t now d member =>
      each s t now d (List.mem_cons_of_mem _ member)) after
    exact ⟨by simp only [answers, same, rest], last⟩

theorem answers_append (step : σ → Call → Answer × σ) (s : σ) (first more : List Call) :
    (answers step s (first ++ more)).1 =
      (answers step s first).1 ++ (answers step (answers step s first).2 more).1 := by
  induction first generalizing s with
  | nil => rfl
  | cons c first ih => exact congrArg (List.cons _) (ih _)

end MainDob.Lib
