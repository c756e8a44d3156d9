/-
Purpose: When the settings file survives `write_file_atomic`. The rename onto the file is always
  refused, so the file is unlinked first; from then on everything has to go well.
Main exports: Atomic, Unlinks, write_file_atomic_iff
-/
import MainDob.Settings.AtomicWrite

namespace MainDob.Settings

open Fs (Path)
open Function

/-- The file holds the old text or the new one, and the new one just where true is returned. -/
def Atomic (path : Path) (old new : Text) (out : Outcome) : Prop :=
  (out.files path = some old ∨ out.files path = some new) ∧
    (out.files path = some new ↔ out.result = some true)

/-- What is left of the responses, once the writes have taken all bytes. -/
def afterWrites (len : Nat) : Nat → List Response → Option (List Response)
  | done, [] => if done < len then none else some []
  | done, r :: responses =>
    if done < len then
      if r.taken (len - done) = 0 then none
      else afterWrites len (done + r.taken (len - done)) responses
    else some (r :: responses)

/-- The responses from the close on, where the run gets there. -/
def fromClose (path : Path) (new : Text) (responses : List Response) : Option (List Response) :=
  if path.length + 5 ≥ settingsPathMax then none
  else
    match responses with
    | r :: responses => if r.ok then afterWrites new.length 0 responses else none
    | [] => none

/-- The responses from the close on let the old file be unlinked. -/
def Gone : List Response → Prop
  | _ :: _ :: second :: _ => second.ok
  | _ => False

/-- They let it be unlinked and replaced by the new text, which the close has kept. -/
def Done (new : Text) : List Response → Prop
  | close :: _ :: second :: third :: _ => second.ok ∧ third.ok ∧ close.leaves new = new
  | _ => False

variable {path tmp : Path} {old new : Text} {files : Files}

theorem atomic_kept {out : Outcome} (kept : out.files path = some old)
    (no : out.result ≠ some true) : Atomic path old new out ↔ old ≠ new := by
  unfold Atomic
  rw [kept, Option.some.injEq, Option.some.injEq]
  simp [no]

theorem atomic_stopped (kept : files path = some old) :
    Atomic path old new ⟨files, none⟩ ↔ old ≠ new := atomic_kept kept (by simp)

theorem atomic_refused (kept : files path = some old) :
    Atomic path old new ⟨files, some false⟩ ↔ old ≠ new := atomic_kept kept (by simp)

theorem not_atomic_lost {out : Outcome} (lost : out.files path = none) :
    ¬ Atomic path old new out := by
  rintro ⟨holds, _⟩
  rw [lost] at holds
  rcases holds with same | same <;> cases same

theorem rename_refused (there : files path = some old) (ok : Bool) :
    (if ok then rename files tmp path else none) = none := by
  unfold rename
  rw [there]
  cases files tmp <;> cases ok <;> rfl

theorem unlink_getD (there : files path = some old) (ok : Bool) :
    (if ok then unlink files path else none).getD files =
      if ok then update files path none else files := by
  unfold unlink
  rw [there]
  cases ok <;> rfl

theorem finish_atomic (apart : tmp ≠ path) (there : files path = some old)
    (responses : List Response) : Atomic path old new (finish path tmp new files responses) ↔
      Done new responses ∨ (old ≠ new ∧ ¬ Gone responses) := by
  match responses with
  | [] =>
    rw [finish, atomic_stopped there]
    simp [Done, Gone]
  | close :: rest =>
    have kept := (update_of_ne apart.symm (some (close.leaves new)) files).trans there
    have temp : update files tmp (some (close.leaves new)) tmp = some (close.leaves new) :=
      update_self ..
    unfold finish
    dsimp only
    generalize update files tmp (some (close.leaves new)) = now at kept temp ⊢
    match rest with
    | [] =>
      rw [atomic_stopped kept]
      simp [Done, Gone]
    | [first] =>
      dsimp only
      rw [rename_refused kept, fallback, atomic_stopped kept]
      simp [Done, Gone]
    | first :: second :: rest =>
      dsimp only
      rw [rename_refused kept]
      unfold fallback
      dsimp only
      rw [unlink_getD kept]
      cases ok : second.ok with
      | false =>
        have same : (Done new (close :: first :: second :: rest) ∨
            old ≠ new ∧ ¬ Gone (close :: first :: second :: rest)) ↔ old ≠ new := by
          cases rest <;> simp [Done, Gone, ok]
        rw [same, if_neg nofun]
        match rest with
        | [] => exact atomic_stopped kept
        | third :: _ =>
          dsimp only
          rw [rename_refused kept]
          exact atomic_refused kept
      | true =>
        have gone : update now path none path = none := update_self ..
        have moved : rename (update now path none) tmp path = some (update (update
            (update now path none) tmp none) path (some (close.leaves new))) := by
          rw [rename, update_of_ne apart, temp, gone]
        match rest with
        | [] =>
          refine iff_of_false (not_atomic_lost gone) ?_
          simp [Done, Gone, ok]
        | third :: rest =>
          rw [if_pos rfl]
          dsimp only
          cases last : third.ok with
          | false =>
            refine iff_of_false (not_atomic_lost gone) ?_
            simp [Done, Gone, ok, last]
          | true =>
            rw [if_pos rfl, moved]
            simp +contextual [Atomic, Done, Gone, ok, last]

theorem writeLoop_cases (apart : tmp ≠ path) (new : Text) (responses : List Response) :
    ∀ (done : Nat) (files : Files), match afterWrites new.length done responses with
      | some rest => ∃ files', files' path = files path ∧
          writeLoop path tmp new done files responses = finish path tmp new files' rest
      | none => (writeLoop path tmp new done files responses).files path = files path ∧
          (writeLoop path tmp new done files responses).result ≠ some true := by
  induction responses with
  | nil =>
    intro done files
    unfold afterWrites
    by_cases more : done < new.length
    · rw [if_pos more]
      exact ⟨rfl, by simp [writeLoop]⟩
    · rw [if_neg more]
      exact ⟨files, rfl, rfl⟩
  | cons r responses ih =>
    intro done files
    unfold afterWrites writeLoop
    by_cases more : done < new.length
    · rw [if_pos more, if_pos more]
      by_cases none : r.taken (new.length - done) = 0
      · rw [if_pos none, if_pos none]
        cases responses with
        | nil => exact ⟨rfl, by simp⟩
        | cons => exact ⟨update_of_ne apart.symm .., by simp⟩
      · rw [if_neg none, if_neg none]
        have next := ih (done + r.taken (new.length - done))
          (update files tmp (some (new.take (done + r.taken (new.length - done)))))
        rwa [update_of_ne apart.symm] at next
    · rw [if_neg more, if_neg more]
      exact ⟨files, rfl, rfl⟩

theorem tmp_ne (path : Path) : path ++ ".tmp".toList ≠ path := by simp

/-- The file holds the old text or the new one, and the new one just where true is returned,
exactly when it is not unlinked, or is and everything after that goes well. -/
theorem write_file_atomic_iff (path : Path) (old new : Text) (responses : List Response)
    (files : Files) (there : files path = some old) :
    Atomic path old new (writeFileAtomic path new responses files) ↔
      match fromClose path new responses with
      | some rest => Done new rest ∨ (old ≠ new ∧ ¬ Gone rest)
      | none => old ≠ new := by
  unfold writeFileAtomic fromClose
  by_cases long : path.length + 5 ≥ settingsPathMax
  · rw [if_pos long, if_pos long]
    exact atomic_refused there
  rw [if_neg long, if_neg long]
  match responses with
  | [] => exact atomic_stopped there
  | first :: responses =>
    cases ok : first.ok with
    | false =>
      dsimp only
      rw [ok, if_neg nofun, if_neg nofun]
      exact atomic_refused there
    | true =>
      dsimp only
      rw [ok, if_pos rfl, if_pos rfl]
      have opened : update files (path ++ ".tmp".toList) (some []) path = some old :=
        (update_of_ne (tmp_ne path).symm ..).trans there
      have written := writeLoop_cases (tmp_ne path) new responses 0
        (update files (path ++ ".tmp".toList) (some []))
      cases left : afterWrites new.length 0 responses with
      | none =>
        rw [left, opened] at written
        exact atomic_kept written.1 written.2
      | some rest =>
        rw [left] at written
        obtain ⟨_, same, run⟩ := written
        rw [run]
        exact finish_atomic (tmp_ne path) (same.trans opened) rest

/-- One file, with an old text. -/
def oneFile : Files := fun p => if p = ['f'] then some ['o'] else none

/-- Every call does what it is asked. -/
theorem write_file_atomic_iff_one : Atomic ['f'] ['o'] ['n'] (writeFileAtomic ['f'] ['n']
    [.done, .short 1, .done, .done, .done, .done] oneFile) :=
  (write_file_atomic_iff ['f'] ['o'] ['n'] [.done, .short 1, .done, .done, .done, .done]
    oneFile rfl).mpr (.inl ⟨rfl, rfl, rfl⟩)

/-- The run stops after the unlink. -/
theorem write_file_atomic_stops : ¬ Atomic ['f'] ['o'] ['n']
    (writeFileAtomic ['f'] ['n'] [.done, .done, .done, .done, .done] oneFile) :=
  not_atomic_lost rfl

end MainDob.Settings
