/-
Purpose: Runs of a labelled transition relation and the invariant rules every safety argument of
  the development goes through.
Main exports: Steps, Steps.invariant, Steps.append
-/
import Mathlib.Logic.Relation

namespace MainDob.Lib

universe u v

variable {State : Type u} {Label : Type v}

/-- A finite run of the transition relation `step`, with the labels of its
steps in order. -/
inductive Steps (step : State → Label → State → Prop) :
    State → List Label → State → Prop where
  | nil (state : State) : Steps step state [] state
  | cons {first middle last : State} {label : Label} {labels : List Label}
      (head : step first label middle) (tail : Steps step middle labels last) :
      Steps step first (label :: labels) last

namespace Steps

variable {step : State → Label → State → Prop}

theorem invariant {Inv : State → Prop} (preserved : ∀ first label last, Inv first →
    step first label last → Inv last) {first last : State} {labels : List Label}
    (run : Steps step first labels last) (start : Inv first) : Inv last := by
  induction run with
  | nil => exact start
  | cons head _ ih => exact ih (preserved _ _ _ start head)

theorem append {first middle last : State} {before after : List Label}
    (one : Steps step first before middle) (two : Steps step middle after last) :
    Steps step first (before ++ after) last := by
  induction one with
  | nil => exact two
  | cons head _ ih => exact .cons head (ih two)

theorem single {first last : State} {label : Label}
    (head : step first label last) : Steps step first [label] last :=
  .cons head (.nil last)

theorem mono {wider : State → Label → State → Prop}
    (included : ∀ first label last, step first label last → wider first label last)
    {first last : State} {labels : List Label}
    (run : Steps step first labels last) : Steps wider first labels last := by
  induction run with
  | nil state => exact .nil state
  | cons head _ ih => exact .cons (included _ _ _ head) ih

end Steps

/-- The transitions of `step` that are taken where `condition` holds of the
state before the step and the label. -/
def Guarded (step : State → Label → State → Prop)
    (condition : State → Label → Prop) : State → Label → State → Prop :=
  fun first label last => step first label last ∧ condition first label

theorem Steps.of_guarded {step : State → Label → State → Prop} {condition : State → Label → Prop}
    {first last : State} {labels : List Label}
    (run : Steps (Guarded step condition) first labels last) : Steps step first labels last :=
  run.mono fun _ _ _ head => head.1

/-- Follow a run of a step function. -/
def followRun (exec : State → Label → Option State) : State → List Label → Option State
  | state, [] => some state
  | state, label :: labels =>
    (exec state label).bind fun next => followRun exec next labels

/-- A step function where a test passes. -/
def checked (exec : State → Label → Option State) (check : State → Label → Bool)
    (state : State) (label : Label) : Option State :=
  if check state label then exec state label else none

section

variable {exec : State → Label → Option State} {first last : State} {labels : List Label}
variable {View : Type*} {view : State → View} {seen : View}

theorem Steps.of_followRun (followed : followRun exec first labels = some last) :
    Steps (fun s label s' => exec s label = some s') first labels last := by
  induction labels generalizing first with
  | nil =>
    cases followed
    exact .nil last
  | cons _ _ ih =>
    obtain ⟨_, taken, rest⟩ := Option.bind_eq_some_iff.mp followed
    exact .cons taken (ih rest)

theorem Steps.guarded_of_followRun {check : State → Label → Bool} {condition : State → Label → Prop}
    (sound : ∀ {s label}, check s label = true → condition s label)
    (followed : followRun (checked exec check) first labels = some last) :
    Steps (Guarded (fun s label s' => exec s label = some s') condition) first labels last := by
  induction labels generalizing first with
  | nil =>
    cases followed
    exact .nil last
  | cons _ _ ih =>
    obtain ⟨_, taken, rest⟩ := Option.bind_eq_some_iff.mp followed
    simp only [checked, Option.ite_none_right_eq_some] at taken
    exact .cons ⟨taken.2, sound taken.1⟩ (ih rest)

/-- A run that has been followed, with what was looked at in its last state. -/
theorem Steps.of_followed (followed : (followRun exec first labels).map view = some seen) :
    ∃ last, Steps (fun s label s' => exec s label = some s') first labels last ∧ view last = seen :=
  (Option.map_eq_some_iff.mp followed).imp fun _ ran => ⟨.of_followRun ran.1, ran.2⟩

theorem Steps.guarded_of_followed {check : State → Label → Bool} {condition : State → Label → Prop}
    (sound : ∀ {s label}, check s label = true → condition s label)
    (followed : (followRun (checked exec check) first labels).map view = some seen) :
    ∃ last, Steps (Guarded (fun s label s' => exec s label = some s') condition) first labels last ∧
      view last = seen :=
  (Option.map_eq_some_iff.mp followed).imp fun _ ran => ⟨.guarded_of_followRun sound ran.1, ran.2⟩

end

end MainDob.Lib
