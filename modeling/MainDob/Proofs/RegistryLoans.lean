/-
Purpose: The wait records and the parked requests of the registry as loans: what
  each step lends, takes, touches and gives back, and when no waker is left with
  the record of a wait that has returned.
Main exports: Unheld, touched, OnLoan
-/
import MainDob.Proofs.RegistrySteps

namespace MainDob.Proofs.RegistryLoans

open Lib Kernel.Registry RegistrySteps
open List

/-- The condition on a step: a wait makes its last section only when no waker
has its record in a batch, taken and not woken. -/
def Unheld (s : State) (label : Label) : Prop :=
  ∀ call known record timeoutMs verdict, label = .go call known →
    s.frames call = .waiting record timeoutMs verdict .awake →
    ∀ waker, call ∉ (s.frames waker).waits

/-- The wait records a waker's step reads or writes: the whole list in a locked
section that collects, then the one it wakes. -/
def touched (s : State) : Label → List CallId
  | .go call _ =>
    match s.frames call with
    | .drain _ _ .collecting => s.waiters
    | .drain _ _ (.waking (c :: _) _ _) => [c]
    | .cleanup _ (.collecting _ _) => s.waiters
    | .cleanup _ (.waking _ _ (c :: _) _) => [c]
    | _ => []
  | _ => []

theorem wake_inWait (frame : Frame) : frame.wake.inWait ↔ frame.inWait := by
  cases frame <;> exact Iff.rfl

theorem wake_inPark (frame : Frame) : frame.wake.inPark ↔ frame.inPark := by
  cases frame <;> exact Iff.rfl

theorem wake_waits (frame : Frame) : frame.wake.waits = frame.waits := by
  cases frame <;> rfl

theorem wake_requests (frame : Frame) : frame.wake.requests = frame.requests := by
  cases frame <;> rfl

variable {frame : Frame}

theorem parked_cases (parked : frame.inPark) :
    ¬ frame.inWait ∧ frame.waits = [] ∧ frame.requests = [] := by
  cases frame with
  | parked => exact ⟨id, rfl, rfl⟩
  | idle | waiting | found | started | discarded | drain | cleanup | returned => exact parked.elim

/-- What holds of the records on loan, in a run in which no wait returns while a
waker has its record. -/
structure OnLoan (s : State) : Prop where
  waits : (lentWaits s).Kept
  requests : (lentRequests s).Kept

theorem OnLoan.initial : OnLoan initial where
  waits := Lending.Kept.empty fun _ => rfl
  requests := Lending.Kept.empty fun _ => rfl

variable {s : State}

theorem OnLoan.parked (loans : OnLoan s) {call c : CallId} (here : s.frames call = frame)
    (held : c ∈ frame.requests) : (s.frames c).inPark :=
  loans.requests.heldPresent call c (by rw [← here] at held; exact held)

theorem apart {call c : CallId} (here : s.frames call = frame)
    (parked : (s.frames c).inPark) (other : ¬ frame.inPark) : c ≠ call := by
  rintro rfl
  exact other (here ▸ parked)

theorem OnLoan.waiting (loans : OnLoan s) {call c : CallId} (here : s.frames call = frame)
    (held : c ∈ frame.waits) (other : ¬ frame.inWait) : c ≠ call := by
  rintro rfl
  have inside := loans.waits.heldPresent c c (by rw [← here] at held; exact held)
  exact other (here ▸ inside)

theorem Shift.waits {frame' : Frame} (moves : Shift frame frame') :
    (frame'.inWait ↔ frame.inWait) ∧ frame'.waits = frame.waits := by
  cases moves <;> exact ⟨Iff.rfl, rfl⟩

theorem Shift.requests {frame' : Frame} (moves : Shift frame frame') :
    (frame'.inPark ↔ frame.inPark) ∧ frame'.requests = frame.requests := by
  cases moves <;> exact ⟨Iff.rfl, rfl⟩

variable {label : Label}

section

variable {s' : State} (loans : OnLoan s)
include loans

theorem lent_move (unheld : Unheld s label) (effect : Effect s label s') : Lending.Move
    (lentWaits s) (lentWaits s') ∧ Lending.Move (lentRequests s) (lentRequests s') := by
  have listed : s.waiters.Sublist s.waiters := .refl _
  have kept : s.parked.Sublist s.parked := .refl _
  cases effect with
  | shift _ _ _ _ here moves =>
    exact ⟨.stayFrame here (Shift.waits moves).1 (Shift.waits moves).2 listed,
      .stayFrame here (Shift.requests moves).1 (Shift.requests moves).2 kept⟩
  | process =>
    exact ⟨.stay (fun _ => Iff.rfl) listed (fun _ => rfl), .stay (fun _ => Iff.rfl) kept fun _ => rfl⟩
  | withdraw _ _ _ _ _ _ here _ _ _ who =>
    rcases who with ⟨rfl, rfl⟩ | ⟨rfl, rfl⟩ <;>
      exact ⟨.stayFrame here Iff.rfl rfl listed, .stayFrame here Iff.rfl rfl kept⟩
  | enlist _ _ _ _ _ _ here =>
    exact ⟨.enlistFrame here id trivial rfl, .stayFrame here Iff.rfl rfl kept⟩
  | park _ _ _ _ _ here =>
    exact ⟨.stayFrame here Iff.rfl rfl listed, .enlistFrame here id trivial rfl⟩
  | finish call known record timeoutMs verdict here =>
    exact ⟨.leaveFrame here id rfl erase_sublist loans.waits.listedOnce.not_mem_erase
      (unheld call known record timeoutMs verdict rfl here), .stayFrame here Iff.rfl rfl kept⟩
  | drain _ _ _ _ here =>
    exact ⟨.takeFrame here rfl Iff.rfl (collect_perm _ waitBatch s.waiters),
      .takeFrame here rfl Iff.rfl (collect_perm _ parkBatch s.parked)⟩
  | clean | install | look =>
    have here := ‹s.frames _ = _›
    exact ⟨.stayFrame here Iff.rfl rfl listed, .stayFrame here Iff.rfl rfl kept⟩
  | dead _ _ _ here =>
    exact ⟨.stayFrame here Iff.rfl rfl listed,
      .takeFrame here rfl Iff.rfl (collect_perm _ parkBatch s.parked)⟩
  | collect _ _ _ _ _ here =>
    exact ⟨.takeFrame here rfl Iff.rfl (collect_perm _ waitBatch s.waiters),
      .stayFrame here Iff.rfl rfl kept⟩
  | wake _ _ _ _ _ here who =>
    rcases who with ⟨name, h, waits, requests, again, rfl, rfl⟩ |
      ⟨owner, name, h, waits, again, rfl, rfl⟩ <;>
    exact ⟨.touchFrame here rfl Iff.rfl (wake_inWait _) (wake_waits _), .stayFrames here
      (loans.waiting here mem_cons_self id) Iff.rfl rfl (wake_inPark _) (wake_requests _)⟩
  | serve _ _ _ _ _ _ here who =>
    rcases who with ⟨name, h, requests, again, rfl, rfl, rfl⟩ |
      ⟨owner, requests, again, rfl, rfl, rfl⟩ <;>
    · have parked := loans.parked here mem_cons_self
      have facts := parked_cases parked
      exact ⟨.stayFrames here (apart here parked id) Iff.rfl rfl (iff_of_false id facts.1)
        facts.2.1.symm, .finishFrame here rfl Iff.rfl (apart here parked id) id facts.2.2.symm⟩

theorem OnLoan.step (taken : Guarded step Unheld s label s') : OnLoan s' := by
  obtain ⟨waits, requests⟩ := lent_move loans taken.2 (exec_effect taken.1)
  exact ⟨loans.waits.move waits, loans.requests.move requests⟩

end

theorem OnLoan.touched (loans : OnLoan s) {c : CallId}
    (isTouched : c ∈ touched s label) : (s.frames c).inWait := by
  cases label with
  | go call =>
    simp only [RegistryLoans.touched] at isTouched
    split at isTouched
    case h_1 here => exact loans.waits.listedPresent c isTouched
    case h_2 name h first waits requests again here =>
      rw [mem_singleton.mp isTouched]
      refine loans.waits.heldPresent call first ?_
      simp [lentWaits, Lending.ofFrames, here, Frame.waits]
    case h_3 here => exact loans.waits.listedPresent c isTouched
    case h_4 owner name h first waits again here =>
      rw [mem_singleton.mp isTouched]
      refine loans.waits.heldPresent call first ?_
      simp [lentWaits, Lending.ofFrames, here, Frame.waits]
    case h_5 => cases isTouched
  | register | unregister | find | wait | park | cleanup | fire | stray
    | process => cases isTouched

end MainDob.Proofs.RegistryLoans
