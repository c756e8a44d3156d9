/-
Purpose: What a section of the timer heap does to one timer and to the drains,
  where timers may be armed and cancelled at any time.
Main exports: Alike, HeapOk.arm, HeapOk.cancel
-/
import MainDob.Proofs.TimerHeap

namespace MainDob.Kernel.Timers

open Function (update update_of_ne)
open Lib

/-- Two states that agree on whether a timer is armed, on its period and on its
generation. -/
structure Alike (s s' : State) (t : Nat) : Prop where
  armed : s'.armed t = s.armed t
  period : (s'.timers t).period = (s.timers t).period
  gen : (s'.timers t).gen = (s.timers t).gen

theorem Alike.of_update {s : State} {h : IndexedHeap Nat} {armed : Bool}
    {timer : Timer} {log : List Event} {t u : Nat} (other : u ≠ t) :
    Alike s { s with
      heap := h
      timers := update s.timers t timer
      armed := update s.armed t armed
      log := log } u :=
  ⟨update_of_ne other _ _, congrArg Timer.period (update_of_ne other _ _),
    congrArg Timer.gen (update_of_ne other _ _)⟩

variable {s s' : State}

theorem HeapOk.arm (ok : HeapOk s) (t deadline period : Nat) :
    HeapOk (armSection s t deadline period) ∧
    (armSection s t deadline period).armed t = (armLocked s t deadline period).2 ∧
      ((armSection s t deadline period).timers t).period = period ∧
      (armSection s t deadline period).drains = s.drains ∧
      ∀ u ≠ t, Alike s (armSection s t deadline period) u := by
  have result : (armSection s t deadline period).armed t = (armLocked s t deadline period).2 := by
    unfold armSection
    cases done : (armLocked s t deadline period).2 <;>
      simp [done, State.setArmed, State.note]
  obtain ⟨_, _, _, same, isPeriod, ok'⟩ := armSection_spec ok t deadline period
  refine ⟨?_, result, ?_, ?_, fun u other => ?_⟩
  · rw [same]
    exact ⟨ok'.indexed, ok'.ordered, ok'.members, ok'.room, ok'.least⟩
  · rw [same]
    simp [isPeriod]
  · rw [same]
  · rw [same]
    exact Alike.of_update other

theorem HeapOk.cancel (ok : HeapOk s) (t : Nat) :
    HeapOk (timerCancel s t) ∧ (timerCancel s t).armed t = false ∧
      (timerCancel s t).drains = s.drains ∧ ∀ u ≠ t, Alike s (timerCancel s t) u := by
  obtain ⟨_, _, same, ok'⟩ := timerCancel_spec ok t
  refine ⟨?_, ?_, ?_, fun u other => ?_⟩
  · rw [same]
    exact ⟨ok'.indexed, ok'.ordered, ok'.members, ok'.room, ok'.least⟩
  · rw [same]
    simp
  · rw [same]
  · rw [same]
    exact Alike.of_update other

/-- What a section that neither arms nor cancels does: nothing to timers and
drains; to one drain, which holds no timer before or after; the comparison of a
generation; the return of a callback; or the taking of the armed head. -/
inductive Effect (label : Label) (s s' : State) : Prop where
  | quiet (alike : ∀ t, Alike s s' t) (drains : s'.drains = s.drains)
  | idle (cpu : Nat) (drain : Option Drain) (alike : ∀ t, Alike s s' t)
      (drains : s'.drains = update s.drains cpu drain)
      (before : ∀ t, inFlight s.drains cpu t = false)
      (after : ∀ t, inFlight s'.drains cpu t = false)
  | check (cpu now t fireGen : Nat) (alike : ∀ t, Alike s s' t)
      (before : s.drains cpu = some ⟨now, .popped t fireGen⟩)
      (drains : s'.drains = update s.drains cpu
        (some ⟨now, if (s.timers t).gen = fireGen then .calling t
          else .returning t⟩))
  | call (cpu now t : Nat) (isCall : label = .call cpu)
      (alike : ∀ t, Alike s s' t)
      (before : s.drains cpu = some ⟨now, .calling t⟩)
      (drains : s'.drains = update s.drains cpu (some ⟨now, .returning t⟩))
  | pop (cpu now t : Nat) (before : ∀ u, inFlight s.drains cpu u = false)
      (wasArmed : s.armed t = true) (due : s.deadline t ≤ now)
      (isArmed : s'.armed t = decide ((s.timers t).period ≠ 0))
      (period : (s'.timers t).period = (s.timers t).period)
      (gen : (s'.timers t).gen = (s.timers t).gen)
      (drains : s'.drains = update s.drains cpu (some ⟨now, .popped t (s.timers t).gen⟩))
      (alike : ∀ u ≠ t, Alike s s' u)

theorem Effect.of_note {label : Label} {event : Event}
    (effect : Effect label (s.note event) s') : Effect label s s' := by
  have same : ∀ {t}, Alike (s.note event) s' t → Alike s s' t := fun alike => { alike with }
  cases effect with
  | quiet alike drains => exact .quiet (fun t => same (alike t)) drains
  | idle cpu drain alike drains before after =>
    exact .idle cpu drain (fun t => same (alike t)) drains before after
  | check cpu now t fireGen alike before drains =>
    exact .check cpu now t fireGen (fun t => same (alike t)) before drains
  | call cpu now t isCall alike before drains =>
    exact .call cpu now t isCall (fun t => same (alike t)) before drains
  | pop cpu now t before wasArmed due isArmed period gen drains alike =>
    exact .pop cpu now t before wasArmed due isArmed period gen drains
      fun u other => same (alike u other)

theorem HeapOk.popHead (ok : HeapOk s) (label : Label) {cpu now : Nat}
    (due : headDue s now = true) (before : ∀ t, inFlight s.drains cpu t = false) :
    HeapOk (popDue s cpu now) ∧ Effect label s (popDue s cpu now) := by
  obtain ⟨some', isDue⟩ := headDue_iff.mp due
  obtain ⟨h, after, result, _, ok'⟩ := popDue_spec ok cpu due
  rw [result]
  refine ⟨⟨ok'.indexed, ok'.ordered, ok'.members, ok'.room, ok'.least⟩, .pop cpu now
    (s.heap.arr 0) before (ok.head_armed some') isDue ?_ ?_ ?_ rfl fun u other => ⟨?_, ?_, ?_⟩⟩
  all_goals simp_all

theorem HeapOk.storage {label : Label} (ok : HeapOk s') (timers : s'.timers = s.timers)
    (drains : s'.drains = s.drains) (armed : s'.armed = s.armed) : HeapOk s' ∧ Effect label s s' :=
  ⟨ok, .quiet (fun t => ⟨by rw [armed], by rw [timers], by rw [timers]⟩) drains⟩

/-- A section that neither arms nor cancels keeps the heap in order and has one
of the effects. -/
theorem HeapOk.section_ (ok : HeapOk s) {label : Label} (arms : ∀ t d, label ≠ .armAt t d)
    (armsPeriodic : ∀ t now p, label ≠ .armPeriodic t now p) (cancels : ∀ t, label ≠ .cancel t)
    (taken : exec s label = some s') : HeapOk s' ∧ Effect label s s' := by
  have redrain : ∀ drains, HeapOk { s with drains := drains } := fun _ => { ok with }
  cases label with
  | armAt t d => exact absurd rfl (arms t d)
  | armPeriodic t now p => exact absurd rfl (armsPeriodic t now p)
  | cancel t => exact absurd rfl (cancels t)
  | growRead | growAdopt | trimRead | trimAdopt =>
    obtain ⟨ok', timers, drains, armed, _⟩ := ok.resized rfl taken
    exact ok'.storage timers drains armed
  | tick cpu now =>
    cases idle : s.drains cpu with
    | some => simp [exec, idle] at taken
    | none =>
      have before : ∀ t, inFlight s.drains cpu t = false := by simp [inFlight, idle]
      simp only [exec, idle] at taken
      split at taken
      · next due =>
          simp only [Option.some.injEq] at taken
          rw [← taken]
          have noted : HeapOk (s.note (.began cpu now)) := { ok with }
          obtain ⟨ok', effect⟩ := noted.popHead (.tick cpu now) due before
          exact ⟨ok', effect.of_note⟩
      · simp only [Option.some.injEq] at taken
        rw [← taken]
        exact HeapOk.storage ok rfl rfl rfl
  | check cpu =>
    simp only [exec] at taken
    split at taken
    · next now t fireGen found =>
        split at taken
        · next same =>
            simp only [Option.some.injEq] at taken
            rw [← taken]
            exact ⟨redrain _, .check cpu now t fireGen (fun _ => ⟨rfl, rfl, rfl⟩) found
              (by rw [if_pos same]; rfl)⟩
        · next stale =>
            simp only [Option.some.injEq] at taken
            rw [← taken]
            exact ⟨redrain _, .check cpu now t fireGen (fun _ => ⟨rfl, rfl, rfl⟩) found
              (by rw [if_neg stale]; rfl)⟩
    · cases taken
  | call cpu =>
    simp only [exec] at taken
    split at taken
    · next now t found =>
        simp only [Option.some.injEq] at taken
        rw [← taken]
        exact ⟨{ ok with }, .call cpu now t rfl (fun _ => ⟨rfl, rfl, rfl⟩) found rfl⟩
    · cases taken
  | ret cpu =>
    simp only [exec] at taken
    split at taken
    · next now t found =>
        simp only [Option.some.injEq] at taken
        rw [← taken]
        have same := pending_same s.timers t false
        refine ⟨⟨ok.indexed, ?_, ok.members, ok.room, ok.least⟩,
          .idle cpu _ (fun u => ⟨rfl, (same u).2.1, (same u).2.2⟩) rfl ?_ ?_⟩
        · exact ordered_congr ok.ordered fun i _ => (same (s.heap.arr i)).1
        · simp [inFlight, found, Phase.holds]
        · simp [inFlight, State.setDrain, Phase.holds]
    · cases taken
  | pop cpu =>
    simp only [exec] at taken
    split at taken
    · next now found =>
        have before : ∀ t, inFlight s.drains cpu t = false := by simp [inFlight, found, Phase.holds]
        simp only [Option.some.injEq] at taken
        rw [← taken, drainNext]
        split
        · next due => exact ok.popHead _ due before
        · exact ⟨redrain _, .idle cpu none (fun _ => ⟨rfl, rfl, rfl⟩) rfl
            before (by simp [inFlight, State.setDrain])⟩
    · cases taken

end MainDob.Kernel.Timers
