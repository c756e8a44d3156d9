/-
Purpose: Records that their owners lend to a shared list, and that takers move from the list into
  batches of their own, to touch them later one by one.
Main exports: collect, collect_perm, collect_wanted
-/
import Mathlib.Data.List.Nodup
import Mathlib.Data.List.Perm.Basic
import Mathlib.Logic.Function.Basic

namespace MainDob.Lib

open Function (update)
open List Function

universe u v

section Collect

variable {Record : Type u}

/-- Take the wanted records out of a list, in its order and at most `room` of
them: the records taken, and the records that stay. -/
def collect (wanted : Record → Bool) : Nat → List Record → List Record × List Record
  | 0, records => ([], records)
  | _ + 1, [] => ([], [])
  | room + 1, record :: records =>
    if wanted record then
      let (taken, left) := collect wanted room records
      (record :: taken, left)
    else
      let (taken, left) := collect wanted (room + 1) records
      (taken, record :: left)

theorem collect_perm (wanted : Record → Bool) (room : Nat) (records : List Record) :
    ((collect wanted room records).1 ++ (collect wanted room records).2).Perm records := by
  induction records generalizing room with
  | nil => cases room <;> simp [collect]
  | cons record _ ih =>
    cases room with
    | zero => simp [collect]
    | succ room =>
      simp only [collect]
      split
      · exact (ih room).cons record
      · exact perm_middle.trans ((ih (room + 1)).cons record)

section

variable {wanted : Record → Bool} {room : Nat} {records : List Record} {record : Record}

theorem collect_wanted (taken : record ∈ (collect wanted room records).1) :
    wanted record = true := by
  induction records generalizing room with
  | nil => cases room <;> simp [collect] at taken
  | cons _ _ ih =>
    cases room with
    | zero => simp [collect] at taken
    | succ =>
      simp only [collect] at taken
      split at taken
      case isTrue yes =>
        rcases mem_cons.mp taken with rfl | later
        · exact yes
        · exact ih later
      case isFalse no => exact ih taken

theorem collect_dry (short : (collect wanted room records).1.length < room)
    (stays : record ∈ (collect wanted room records).2) : wanted record = false := by
  induction records generalizing room with
  | nil => cases room <;> simp [collect] at stays
  | cons _ _ ih =>
    cases room with
    | zero => simp at short
    | succ =>
      simp only [collect] at short stays
      split at stays
      case isTrue yes =>
        rw [if_pos yes] at short
        exact ih (by simpa using short) stays
      case isFalse no =>
        rw [if_neg no] at short
        rcases mem_cons.mp stays with rfl | later
        · simpa using no
        · exact ih short later

theorem mem_collect : record ∈ records ↔
    record ∈ (collect wanted room records).1 ∨ record ∈ (collect wanted room records).2 := by
  rw [← (collect_perm wanted room records).mem_iff, mem_append]

end

end Collect

/-- Records on loan: those whose owner still waits for them (`present`), the
shared list, and what each taker has taken and not touched yet. -/
structure Lending (Taker : Type u) (Record : Type v) where
  present : Record → Prop
  listed : List Record
  held : Taker → List Record

namespace Lending

variable {Taker : Type u} {Record : Type v}

/-- Every record that is listed or held is still its owner's, and it is listed
or held in one place only. -/
structure Kept (loans : Lending Taker Record) : Prop where
  listedOnce : loans.listed.Nodup
  heldOnce : ∀ taker, (loans.held taker).Nodup
  apart : ∀ taker record, record ∈ loans.held taker → record ∉ loans.listed
  oneTaker : ∀ one other record, record ∈ loans.held one → record ∈ loans.held other → one = other
  listedPresent : ∀ record ∈ loans.listed, loans.present record
  heldPresent : ∀ taker, ∀ record ∈ loans.held taker, loans.present record

/-- What can happen to the loans in one step. -/
inductive Move (before after : Lending Taker Record) : Prop where
  /-- Nothing happens to them, or a record is taken off the list. -/
  | stay
      (present : ∀ record, after.present record ↔ before.present record)
      (listed : after.listed.Sublist before.listed)
      (held : ∀ taker, after.held taker = before.held taker)
  /-- An owner lends a record. -/
  | enlist (record : Record) (new : ¬ before.present record)
      (present : ∀ other, after.present other ↔ other = record ∨ before.present other)
      (listed : after.listed = before.listed ++ [record])
      (held : ∀ taker, after.held taker = before.held taker)
  /-- A taker fills its empty batch from the list. -/
  | take (taker : Taker) (idle : before.held taker = [])
      (present : ∀ record, after.present record ↔ before.present record)
      (shared : (after.held taker ++ after.listed).Perm before.listed)
      (held : ∀ other, other ≠ taker → after.held other = before.held other)
  /-- A taker is done with the first record of its batch. -/
  | touch (taker : Taker) (record : Record)
      (present : ∀ record, after.present record ↔ before.present record)
      (listed : after.listed = before.listed)
      (batch : before.held taker = record :: after.held taker)
      (held : ∀ other, other ≠ taker → after.held other = before.held other)
  /-- A taker is done with the first record of its batch, and so is its
  owner. -/
  | finish (taker : Taker) (record : Record)
      (present : ∀ other, after.present other ↔ other ≠ record ∧ before.present other)
      (listed : after.listed = before.listed)
      (batch : before.held taker = record :: after.held taker)
      (held : ∀ other, other ≠ taker → after.held other = before.held other)
  /-- An owner takes back a record that no taker holds. -/
  | leave (record : Record)
      (unheld : ∀ taker, record ∉ before.held taker)
      (present : ∀ other, after.present other ↔ other ≠ record ∧ before.present other)
      (listed : after.listed.Sublist before.listed)
      (gone : record ∉ after.listed)
      (held : ∀ taker, after.held taker = before.held taker)

variable {before after : Lending Taker Record}

theorem Kept.shrink (kept : Kept before) (listed : after.listed.Sublist before.listed)
    (held : ∀ taker, (after.held taker).Sublist (before.held taker))
    (present : ∀ record, before.present record →
      (record ∈ after.listed ∨ ∃ taker, record ∈ after.held taker) →
      after.present record) : Kept after where
  listedOnce := listed.nodup kept.listedOnce
  heldOnce := fun taker => (held taker).nodup (kept.heldOnce taker)
  apart := fun taker record isHeld isListed =>
    kept.apart taker record ((held taker).subset isHeld) (listed.subset isListed)
  oneTaker := fun one other record isHeld alsoHeld =>
    kept.oneTaker one other record ((held one).subset isHeld) ((held other).subset alsoHeld)
  listedPresent := fun record isListed =>
    present record (kept.listedPresent record (listed.subset isListed)) (.inl isListed)
  heldPresent := fun taker record isHeld =>
    present record (kept.heldPresent taker record ((held taker).subset isHeld))
      (.inr ⟨taker, isHeld⟩)

theorem Kept.enlist (kept : Kept before) {new : Record} (isNew : ¬ before.present new)
    (present : ∀ other, after.present other ↔ other = new ∨ before.present other)
    (listed : after.listed = before.listed ++ [new])
    (held : ∀ taker, after.held taker = before.held taker) : Kept after := by
  have notListed : new ∉ before.listed := fun isListed => isNew (kept.listedPresent new isListed)
  have notHeld : ∀ taker, new ∉ before.held taker := fun taker isHeld =>
    isNew (kept.heldPresent taker new isHeld)
  constructor
  · rw [listed, nodup_append]
    refine ⟨kept.listedOnce, nodup_singleton new, ?_⟩
    rintro record isListed other isLast rfl
    rw [mem_singleton.mp isLast] at isListed
    exact notListed isListed
  · intro taker
    rw [held]
    exact kept.heldOnce taker
  · intro taker record
    rw [held, listed, mem_append, mem_singleton]
    rintro isHeld (isListed | rfl)
    · exact kept.apart taker record isHeld isListed
    · exact notHeld taker isHeld
  · intro one other record
    rw [held, held]
    exact kept.oneTaker one other record
  · intro record isListed
    rw [listed, mem_append, mem_singleton] at isListed
    exact (present record).mpr (isListed.symm.imp id (kept.listedPresent record))
  · intro taker record isHeld
    exact (present record).mpr (.inr (kept.heldPresent taker record (held taker ▸ isHeld)))

theorem Kept.take (kept : Kept before) {taker : Taker} (present : ∀ record, after.present record ↔
    before.present record) (shared : (after.held taker ++ after.listed).Perm before.listed)
    (held : ∀ other, other ≠ taker → after.held other = before.held other) : Kept after := by
  have parts := nodup_append.mp (shared.nodup_iff.mpr kept.listedOnce)
  have wasListed : ∀ record, record ∈ after.held taker ∨
      record ∈ after.listed → record ∈ before.listed :=
    fun record isIn => shared.mem_iff.mp (mem_append.mpr isIn)
  constructor
  · exact parts.2.1
  · intro other
    by_cases same : other = taker
    · rw [same]
      exact parts.1
    · rw [held other same]
      exact kept.heldOnce other
  · intro other record isHeld isListed
    by_cases same : other = taker
    · rw [same] at isHeld
      exact parts.2.2 record isHeld record isListed rfl
    · rw [held other same] at isHeld
      exact kept.apart other record isHeld (wasListed record (.inr isListed))
  · intro one other record isHeld alsoHeld
    by_cases first : one = taker <;> by_cases second : other = taker
    · rw [first, second]
    · rw [first] at isHeld
      rw [held other second] at alsoHeld
      exact (kept.apart other record alsoHeld (wasListed record (.inl isHeld))).elim
    · rw [held one first] at isHeld
      rw [second] at alsoHeld
      exact (kept.apart one record isHeld (wasListed record (.inl alsoHeld))).elim
    · rw [held one first] at isHeld
      rw [held other second] at alsoHeld
      exact kept.oneTaker one other record isHeld alsoHeld
  · intro record isListed
    exact (present record).mpr (kept.listedPresent record (wasListed record (.inr isListed)))
  · intro other record isHeld
    rw [present record]
    by_cases same : other = taker
    · rw [same] at isHeld
      exact kept.listedPresent record (wasListed record (.inl isHeld))
    · rw [held other same] at isHeld
      exact kept.heldPresent other record isHeld

theorem held_sublist {taker : Taker} {first : Record} (batch : before.held taker = first ::
    after.held taker) (held : ∀ other, other ≠ taker → after.held other = before.held other)
    (other : Taker) : (after.held other).Sublist (before.held other) := by
  by_cases same : other = taker
  · rw [same, batch]
    exact sublist_cons_self first _
  · rw [held other same]

theorem Kept.move (kept : Kept before) (move : Move before after) : Kept after := by
  cases move with
  | stay present listed held =>
    exact kept.shrink listed (fun taker => held taker ▸ List.Sublist.refl _)
      (fun record isPresent _ => (present record).mpr isPresent)
  | enlist _ isNew present listed held => exact kept.enlist isNew present listed held
  | take _ _ present shared held => exact kept.take present shared held
  | touch _ _ present listed batch held =>
    exact kept.shrink (listed ▸ List.Sublist.refl _) (held_sublist batch held)
      (fun record isPresent _ => (present record).mpr isPresent)
  | finish taker done present listed batch held =>
    have wasHeld : done ∈ before.held taker := by
      rw [batch]
      exact mem_cons_self
    refine kept.shrink (listed ▸ List.Sublist.refl _) (held_sublist batch held) ?_
    intro record isPresent stays
    refine (present record).mpr ⟨?_, isPresent⟩
    rintro rfl
    rcases stays with isListed | ⟨other, isHeld⟩
    · exact kept.apart taker record wasHeld (listed ▸ isListed)
    by_cases same : other = taker
    · -- the batch had it once
      have once := kept.heldOnce taker
      rw [batch, nodup_cons] at once
      exact once.1 (same ▸ isHeld)
    · rw [held other same] at isHeld
      exact same (kept.oneTaker other taker record isHeld wasHeld)
  | leave _ unheld present listed gone held =>
    refine kept.shrink listed (fun taker => held taker ▸ List.Sublist.refl _) ?_
    intro record isPresent stays
    refine (present record).mpr ⟨?_, isPresent⟩
    rintro rfl
    rcases stays with isListed | ⟨taker, isHeld⟩
    · exact gone isListed
    · exact unheld taker (held taker ▸ isHeld)

section Frames

variable {Call : Type u} {Frame : Type v} {inside : Frame → Prop} {held : Frame → List Call}
  {listed listed' : List Call} {frames : Call → Frame} {call c : Call} {frame frame' : Frame}

/-- The loans of calls whose frames say whether the call is inside the function
that lends its record, and which records it has taken. -/
def ofFrames (inside : Frame → Prop) (held : Frame → List Call)
    (listed : List Call) (frames : Call → Frame) : Lending Call Call where
  present := fun call => inside (frames call)
  listed := listed
  held := fun call => held (frames call)

theorem Kept.empty (nobody : ∀ call, held (frames call) = []) :
    Kept (ofFrames inside held [] frames) := by
  have nothing : ∀ call record, record ∉ held (frames call) := by
    intro call record
    rw [nobody call]
    exact not_mem_nil
  constructor
  · exact nodup_nil
  · intro call
    show (held (frames call)).Nodup
    rw [nobody call]
    exact nodup_nil
  · exact fun call record isHeld => (nothing call record isHeld).elim
  · exact fun one other record isHeld => (nothing one record isHeld).elim
  · exact fun record isListed => (not_mem_nil isListed).elim
  · exact fun call record isHeld => (nothing call record isHeld).elim

variable [DecidableEq Call]

section

variable (here : frames call = frame)
include here

theorem update_agrees {Value : Type*} {value : Frame → Value} (same : value frame' = value frame)
    (other : Call) : value (update frames call frame' other) = value (frames other) := by
  by_cases isCall : other = call
  · rw [isCall, update_self, here, same]
  · rw [update_of_ne isCall]

theorem Move.stayFrame (same : inside frame' ↔ inside frame) (batch : held frame' = held frame)
    (shorter : listed'.Sublist listed) : Move (ofFrames inside held listed frames)
      (ofFrames inside held listed' (update frames call frame')) :=
  .stay (fun other => iff_of_eq (update_agrees here (propext same) other))
    shorter (update_agrees here batch)

theorem Move.stayFrames {touched : Frame} (another : c ≠ call) (same : inside frame' ↔ inside frame)
    (batch : held frame' = held frame) (sameRecord : inside touched ↔ inside (frames c))
    (batchRecord : held touched = held (frames c)) : Move (ofFrames inside held listed frames)
    (ofFrames inside held listed (update (update frames c touched) call frame')) := by
  have here' : update frames c touched call = frame := by
    rw [update_of_ne another.symm, here]
  refine .stay (fun other => ?_) (List.Sublist.refl _) (fun other => ?_)
  · exact (iff_of_eq (update_agrees here' (propext same) other)).trans
      (iff_of_eq (update_agrees rfl (propext sameRecord) other))
  · exact (update_agrees here' batch other).trans (update_agrees rfl batchRecord other)

theorem Move.enlistFrame (out : ¬ inside frame) (enters : inside frame')
    (batch : held frame' = held frame) : Move (ofFrames inside held listed frames)
    (ofFrames inside held (listed ++ [call]) (update frames call frame')) := by
  refine .enlist call ?_ (fun other => ?_) rfl (update_agrees here batch)
  · show ¬ inside (frames call)
    rwa [here]
  · show inside (update frames call frame' other) ↔ other = call ∨ inside (frames other)
    by_cases same : other = call
    · simp [same, enters]
    · simp [same]

theorem Move.leaveFrame (leaves : ¬ inside frame')
    (batch : held frame' = held frame) (shorter : listed'.Sublist listed) (gone : call ∉ listed')
    (unheld : ∀ taker, call ∉ held (frames taker)) : Move (ofFrames inside held listed frames)
      (ofFrames inside held listed' (update frames call frame')) := by
  refine .leave call unheld (fun other => ?_) shorter gone (update_agrees here batch)
  show inside (update frames call frame' other) ↔ other ≠ call ∧ inside (frames other)
  by_cases same : other = call
  · simp [same, leaves]
  · simp [same]

theorem Move.takeFrame (idle : held frame = []) (same : inside frame' ↔ inside frame)
    (shared : (held frame' ++ listed').Perm listed) : Move (ofFrames inside held listed frames)
      (ofFrames inside held listed' (update frames call frame')) := by
  refine .take call ?_ (fun other => iff_of_eq (update_agrees here (propext same) other)) ?_
    (fun other isOther => ?_)
  · show held (frames call) = []
    rw [here, idle]
  · show (held (update frames call frame' call) ++ listed').Perm listed
    rw [update_self]
    exact shared
  · show held (update frames call frame' other) = held (frames other)
    rw [update_of_ne isOther]

theorem batch_popped {touched : Frame} (batch : held frame = c :: held frame')
    (batchRecord : held touched = held (frames c)) : held (frames call) =
        c :: held (update (update frames c touched) call frame' call) ∧ ∀ other, other ≠ call →
        held (update (update frames c touched) call frame' other) = held (frames other) := by
  constructor
  · rw [update_self, here, batch]
  · intro other isOther
    rw [update_of_ne isOther]
    exact update_agrees rfl batchRecord other

theorem Move.touchFrame {touched : Frame} (batch : held frame = c :: held frame')
    (same : inside frame' ↔ inside frame) (sameRecord : inside touched ↔ inside (frames c))
    (batchRecord : held touched = held (frames c)) : Move (ofFrames inside held listed frames)
    (ofFrames inside held listed (update (update frames c touched) call frame')) := by
  obtain ⟨popped, others⟩ := batch_popped here batch batchRecord
  refine .touch call c (fun other => ?_) rfl popped others
  show inside (update (update frames c touched) call frame' other) ↔ inside (frames other)
  by_cases isCall : other = call
  · rw [isCall, update_self, here]
    exact same
  · rw [update_of_ne isCall]
    exact iff_of_eq (update_agrees rfl (propext sameRecord) other)

theorem Move.finishFrame {outcome : Frame} (batch : held frame = c :: held frame')
    (same : inside frame' ↔ inside frame) (another : c ≠ call) (ends : ¬ inside outcome)
    (batchRecord : held outcome = held (frames c)) : Move (ofFrames inside held listed frames)
    (ofFrames inside held listed (update (update frames c outcome) call frame')) := by
  obtain ⟨popped, others⟩ := batch_popped here batch batchRecord
  refine .finish call c (fun other => ?_) rfl popped others
  show inside (update (update frames c outcome) call frame'
    other) ↔ other ≠ c ∧ inside (frames other)
  by_cases isCall : other = call
  · rw [isCall, update_self, here]
    simp [same, another.symm]
  · rw [update_of_ne isCall]
    by_cases isRecord : other = c
    · simp [isRecord, ends]
    · simp [isRecord]

end

end Frames

end Lending

end MainDob.Lib
