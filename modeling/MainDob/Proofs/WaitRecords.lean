/-
Purpose: The wait records of the registry and of the event groups live on the stacks of their
  waits, and a waker touches the ones it took after it dropped the lock.
Main exports: wait_records, wait_records_inTime, wait_records_late
-/
import MainDob.Proofs.EventGroupLoans
import MainDob.Proofs.RegistryLoans

namespace MainDob.Proofs.WaitRecords

open Lib Kernel
open Option

/-- In every run in which no wait returns while its record is in a waker's
batch, taken and not woken, every record that a waker's step touches belongs to
a wait that has not returned: in the registry, and in an event group. -/
theorem wait_records (owner : Nat) : (∀ (labels : List Registry.Label) (s : Registry.State),
      Steps (Guarded Registry.step RegistryLoans.Unheld) Registry.initial labels s →
      ∀ label, ∀ c ∈ RegistryLoans.touched s label, (s.frames c).inWait) ∧
    ∀ (labels : List EventGroup.Label) (s : EventGroup.State),
      Steps (Guarded EventGroup.step EventGroupLoans.Unheld) (EventGroup.created owner) labels s →
      ∀ label, ∀ c ∈ EventGroupLoans.touched s label, (s.frames c).inWait := by
  constructor
  · intro labels s run label c isTouched
    have loans : RegistryLoans.OnLoan s := run.invariant
      (fun _ _ _ before taken => before.step taken) RegistryLoans.OnLoan.initial
    exact loans.touched isTouched
  · intro labels s run label c isTouched
    have loans : EventGroupLoans.OnLoan s := run.invariant
      (fun _ _ _ before taken => before.step taken) (EventGroupLoans.OnLoan.created owner)
    exact loans.touched isTouched

/-- Registry steps that the condition says nothing about. -/
def registryCalm (s : Registry.State) : Registry.Label → Bool
  | .go call _ =>
    match s.frames call with
    | .waiting _ _ _ .awake => false
    | _ => true
  | _ => true

theorem registryCalm_sound {s : Registry.State} {label : Registry.Label}
    (passed : registryCalm s label = true) : RegistryLoans.Unheld s label := by
  rintro call known record timeoutMs verdict rfl here
  simp [registryCalm, here] at passed

/-- Event-group steps that the condition says nothing about. -/
def groupCalm (s : EventGroup.State) : EventGroup.Label → Bool
  | .go call _ =>
    match s.frames call with
    | .waiting record _ _ _ => !record.signaled
    | _ => true
  | _ => true

theorem groupCalm_sound {s : EventGroup.State} {label : EventGroup.Label}
    (passed : groupCalm s label = true) : EventGroupLoans.Unheld s label := by
  rintro call armed record timeoutMs verdict point rfl here decided
  simp [groupCalm, here, decided] at passed

/-- The name of a service. -/
def service : Registry.Name := ⟨[118, 102, 115], by decide, by decide⟩

/-- A wait for the name, whose timer fires, and a registration that takes its
record. -/
def awaited : List Registry.Label :=
  [.wait 0 service 5 true, .fire 0, .register 1 service 42 7, .go 1 true]

/-- A wait for the lowest bit, whose timer fires, and a set that takes its
record. -/
def flagged : List EventGroup.Label :=
  [.wait 0 1 1 5, .go 0 true, .go 0 true, .fire 0, .mutate 1 .set 1, .go 1 true]

/-- Two wakers that are about to touch a record whose wait is still there. -/
theorem wait_records_inTime :
    (∃ s, Steps (Guarded Registry.step RegistryLoans.Unheld) Registry.initial
        awaited s ∧ RegistryLoans.touched s (.go 1 true) = [0] ∧ (s.frames 0).inWait) ∧
    ∃ s, Steps (Guarded EventGroup.step EventGroupLoans.Unheld) (EventGroup.created 7) flagged s ∧
      EventGroupLoans.touched s (.go 1 true) = [0] ∧ (s.frames 0).inWait := by
  have first : (followRun (checked Registry.exec registryCalm) Registry.initial awaited).map
      (fun s => RegistryLoans.touched s (.go 1 true)) = some [0] := by
    decide +kernel
  have second : (followRun (checked EventGroup.exec groupCalm)
      (EventGroup.created 7) flagged).map
      (fun s => EventGroupLoans.touched s (.go 1 true)) = some [0] := by
    decide +kernel
  obtain ⟨s, run, seen⟩ := Steps.guarded_of_followed registryCalm_sound first
  obtain ⟨t, run', seen'⟩ := Steps.guarded_of_followed groupCalm_sound second
  refine ⟨⟨s, run, seen, ?_⟩, t, run', seen', ?_⟩
  · exact (wait_records 7).1 awaited s run (.go 1 true) 0 (by simp [seen])
  · exact (wait_records 7).2 flagged t run' (.go 1 true) 0 (by simp [seen'])

/-- The wait ends by its timeout between the section that takes its record and
the wake. -/
def overtaken : List Registry.Label :=
  [.wait 0 service 5 true, .register 1 service 42 7, .go 1 true, .fire 0, .go 0 true, .go 0 true]

/-- The wait wakes up by its timer, finds its record marked and returns before
the wake. -/
def overtakenFlag : List EventGroup.Label :=
  flagged ++ [.go 0 true, .go 0 true]

/-- Two wakers that are about to touch a record whose wait has returned. -/
theorem wait_records_late : (∃ s, Steps Registry.step Registry.initial overtaken s ∧
      RegistryLoans.touched s (.go 1 true) = [0] ∧
      s.frames 0 = .found 42) ∧ ∃ s, Steps EventGroup.step (EventGroup.created 7) overtakenFlag s ∧
      EventGroupLoans.touched s (.go 1 true) = [0] ∧ s.frames 0 = .waited .ok (some 1) := by
  have first : (followRun Registry.exec Registry.initial overtaken).map
      (fun s => (RegistryLoans.touched s (.go 1 true), s.frames 0)) = some ([0], .found 42) := by
    decide +kernel
  have second : (followRun EventGroup.exec (EventGroup.created 7) overtakenFlag).map
        (fun s => (EventGroupLoans.touched s (.go 1 true), s.frames 0)) =
      some ([0], .waited .ok (some 1)) := by
    decide +kernel
  obtain ⟨s, run, seen⟩ := Steps.of_followed first
  obtain ⟨t, run', seen'⟩ := Steps.of_followed second
  simp only [Prod.mk.injEq] at seen seen'
  exact ⟨⟨s, run, seen⟩, t, run', seen'⟩

end MainDob.Proofs.WaitRecords
