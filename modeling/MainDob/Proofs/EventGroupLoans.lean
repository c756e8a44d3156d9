/-
Purpose: The wait records of an event group as loans: what each step lends,
  takes, touches and gives back, and when no waker is left with the record of a
  wait that has returned.
Main exports: Unheld, touched, lent_move
-/
import MainDob.Proofs.EventGroupTrace

namespace MainDob.Proofs.EventGroupLoans

open Function (update)
open Lib Kernel.EventGroup EventGroupSteps EventGroupTrace
open List Function

/-- The condition on a step: a wait that finds its record marked goes on to
return only when no waker has the record in its batch, taken and not woken. -/
def Unheld (s : State) (label : Label) : Prop :=
  ∀ call armed record timeoutMs verdict point, label = .go call armed →
    s.frames call = .waiting record timeoutMs verdict point → record.signaled = true →
    point = .prepared ∨ point = .awake ∨ point = .expiring → ∀ waker, call ∉ (s.frames waker).batch

/-- The records a waker's step reads or writes: the whole list in a locked
section, then the one it wakes. -/
def touched (s : State) : Label → List CallId
  | .go call _ =>
    match s.frames call with
    | .walk _ .walking => s.group.waiters
    | .walk _ (.waking (c :: _) _) => [c]
    | _ => []
  | _ => []

/-- A record in a batch was released by the call whose batch it is. -/
def BatchesLogged (s : State) : Prop :=
  ∀ waker, ∀ c ∈ (s.frames waker).batch, ∃ result flags, .released c waker result flags ∈ s.log

theorem wake_inWait (frame : Frame) : frame.wake.inWait ↔ frame.inWait := by
  cases frame <;> exact Iff.rfl

theorem wake_batch (frame : Frame) : frame.wake.batch = frame.batch := by
  cases frame <;> rfl

theorem mark_inWait (walk : Walk) (frame : Frame) : (walk.mark frame).inWait ↔ frame.inWait := by
  cases frame <;> exact Iff.rfl

theorem mark_batch (walk : Walk) (frame : Frame) : (walk.mark frame).batch = frame.batch := by
  cases frame <;> rfl

variable {s : State} {call : CallId}

theorem take_one {walk : Walk} (here : s.frames call = .walk walk .walking) :
    Lending.Move (lent s) (lent (takeBatch s call walk)) := by
  refine .take call (by simp [lent, Lending.ofFrames, here, Frame.batch])
    (fun c => ?_) ?_ (fun c isOther => ?_)
  · simp only [lent, Lending.ofFrames]
    by_cases same : c = call
    · rw [same, takeBatch_self, here]
      exact Iff.rfl
    · rw [takeBatch_other s walk same]
      split
      · exact mark_inWait walk _
      · exact Iff.rfl
  · simp only [lent, Lending.ofFrames, takeBatch_self]
    exact collect_perm _ batchSize s.group.waiters
  · simp only [lent, Lending.ofFrames]
    rw [takeBatch_other s walk isOther]
    split
    · exact mark_batch walk _
    · rfl

theorem expired_unheld (traced : Traced s) (logged : BatchesLogged s)
    {record : Waiter} {timeoutMs : Nat} {verdict : WaitResult}
    (here : s.frames call = .waiting record timeoutMs verdict .expired)
    (waker : CallId) : call ∉ (s.frames waker).batch := by
  intro isHeld
  obtain ⟨_, _, isIn⟩ := logged waker call isHeld
  have shown := traced.witnessed _ isIn
  simp only [subject, here] at shown
  exact Bool.noConfusion ((traced.undecided call record timeoutMs verdict here).symm.trans shown.1)

variable {label : Label}

theorem lent_move {s' : State} (traced : Traced s) (logged : BatchesLogged s)
    (unheld : Unheld s label) (effect : Effect s label s') : Lending.Move (lent s) (lent s') := by
  cases effect with
  | logged label _ change =>
    cases change with
    | expire _ _ _ _ _ here => exact .stayFrame here Iff.rfl rfl erase_sublist
    | immediate _ _ _ _ here => exact .stayFrame here Iff.rfl rfl (List.Sublist.refl _)
    | enlist _ _ _ _ here => exact .enlistFrame here id trivial rfl
    | mutate _ _ _ here => exact .stayFrame here Iff.rfl rfl (List.Sublist.refl _)
    | zero _ _ _ _ _ here =>
      rcases here with here | ⟨walk, here⟩
      · exact .stayFrame here Iff.rfl rfl (List.Sublist.refl _)
      · exact .stayFrame here Iff.rfl rfl (List.Sublist.refl _)
    | take _ _ _ here => exact take_one here
  | answer armed call record timeoutMs verdict point here checks decided =>
    refine .leaveFrame here id rfl (List.Sublist.refl _) ?_ (unheld call armed
      record timeoutMs verdict point rfl here decided checks)
    exact traced.orderly.unlisted here fun pending =>
      Bool.noConfusion (pending.1.symm.trans decided)
  | giveUp _ _ _ _ _ here =>
    exact .leaveFrame here id rfl (List.Sublist.refl _) (traced.orderly.unlisted here fun pending =>
      pending.2 rfl) (expired_unheld traced logged here)
  | refuse _ _ _ here ends =>
    rcases ends with ⟨code, rfl⟩ | ⟨result, flags, rfl, -⟩
    · exact .stayFrame here Iff.rfl rfl (List.Sublist.refl _)
    · exact .stayFrame here Iff.rfl rfl (List.Sublist.refl _)
  | wake _ _ _ _ _ _ here => exact .touchFrame here rfl Iff.rfl (wake_inWait _) (wake_batch _)
  | rest | poison | read | again =>
    have here := ‹s.frames _ = _›
    exact .stayFrame here Iff.rfl rfl (List.Sublist.refl _)
  | done _ _ _ _ here ends =>
    rcases ends with rfl | rfl <;> exact .stayFrame here Iff.rfl rfl (List.Sublist.refl _)

theorem BatchesLogged.one (logged : BatchesLogged s) {group : Group} {events : List Event}
    {frame frame' : Frame} (here : s.frames call = frame) (batch : frame'.batch ⊆ frame.batch) :
    BatchesLogged ⟨group, update s.frames call frame', s.log ++ events⟩ := by
  intro waker c isHeld
  have wasHeld : c ∈ (s.frames waker).batch := by
    change c ∈ (update s.frames call frame' waker).batch at isHeld
    by_cases same : waker = call
    · rw [same, update_self] at isHeld
      rw [same, here]
      exact batch isHeld
    · rwa [update_of_ne same] at isHeld
  obtain ⟨result, flags, isIn⟩ := logged waker c wasHeld
  exact ⟨result, flags, mem_append_left _ isIn⟩

theorem BatchesLogged.quiet (logged : BatchesLogged s) {group : Group} {frame frame' : Frame}
    (here : s.frames call = frame) (batch : frame'.batch ⊆ frame.batch) :
    BatchesLogged ⟨group, update s.frames call frame', s.log⟩ := by
  have grown : BatchesLogged ⟨group, update s.frames call frame',
      s.log ++ []⟩ := logged.one here batch
  rwa [append_nil] at grown

theorem BatchesLogged.effect {s' : State} (logged : BatchesLogged s) (effect : Effect s label s') :
    BatchesLogged s' := by
  have empty {frame : Frame} : ([] : List CallId) ⊆ frame.batch := nil_subset _
  cases effect with
  | logged label _ change =>
    cases change with
    | immediate _ _ _ _ here =>
      rw [State.record, State.record]
      simp only [setFrame_log, append_assoc]
      exact logged.one here empty
    | expire | enlist | mutate => exact logged.one ‹_› empty
    | zero _ _ _ _ _ here =>
      rcases here with here | ⟨walk, here⟩ <;> exact logged.one here empty
    | take _ call walk =>
      intro waker c isHeld
      by_cases same : waker = call
      · rw [same, takeBatch_self] at isHeld
        rw [same]
        exact ⟨walk.decision, walk.snapshot, mem_append_right _ (mem_map.mpr ⟨c, isHeld, rfl⟩)⟩
      have wasHeld : c ∈ (s.frames waker).batch := by
        rw [takeBatch_other s walk same] at isHeld
        split at isHeld
        · rwa [mark_batch] at isHeld
        · exact isHeld
      obtain ⟨result, flags, isIn⟩ := logged waker c wasHeld
      exact ⟨result, flags, mem_append_left _ isIn⟩
  | rest label call record timeoutMs verdict verdict' point point' queued here
      before after => exact logged.quiet here empty
  | refuse _ _ _ here ends =>
    rcases ends with ⟨code, rfl⟩ | ⟨result, flags, rfl, -⟩ <;> exact logged.quiet here empty
  | wake _ call _ c _ _ here =>
    have woken : BatchesLogged (s.setFrame c (s.frames c).wake) :=
      logged.quiet rfl (by rw [wake_batch]; exact fun _ => id)
    intro waker other isHeld
    by_cases same : waker = call
    · rw [same] at isHeld ⊢
      simp only [setFrame_frames, update_self] at isHeld
      exact logged call other (by rw [here]; exact mem_cons_of_mem c isHeld)
    · simp only [setFrame_frames, update_of_ne same] at isHeld
      exact woken waker other isHeld
  | answer | giveUp | poison | read | again => exact logged.quiet ‹_› empty
  | done _ _ _ _ here ends =>
    rcases ends with rfl | rfl <;> exact logged.quiet here empty

/-- What holds of the wait records in a run in which no wait leaves while a
waker has its record. -/
structure OnLoan (s : State) : Prop where
  traced : Traced s
  logged : BatchesLogged s
  kept : (lent s).Kept

theorem OnLoan.created (owner : Nat) : OnLoan (created owner) where
  traced := Traced.created owner
  logged := fun _ _ isHeld => by cases isHeld
  kept := Lending.Kept.empty fun _ => rfl

theorem OnLoan.step {s' : State} (loans : OnLoan s)
    (taken : Guarded step Unheld s label s') : OnLoan s' := by
  have effect := exec_effect taken.1
  exact ⟨loans.traced.effect effect, loans.logged.effect effect,
    loans.kept.move (lent_move loans.traced loans.logged taken.2 effect)⟩

theorem OnLoan.touched (loans : OnLoan s) {c : CallId}
    (isTouched : c ∈ touched s label) : (s.frames c).inWait := by
  cases label with
  | go call =>
    simp only [EventGroupLoans.touched] at isTouched
    split at isTouched
    case h_1 walk here => exact loans.kept.listedPresent c isTouched
    case h_2 walk first batch again here =>
      rw [mem_singleton.mp isTouched]
      refine loans.kept.heldPresent call first ?_
      simp [lent, Lending.ofFrames, here, Frame.batch]
    case h_3 => cases isTouched
  | create | destroy | mutate | poison | reset | wait | fire | stray =>
    cases isTouched

end MainDob.Proofs.EventGroupLoans
