/-
Purpose: Which programs the settings daemon keeps apart: those whose last path
  components differ by more than letter case, and no others.
Main exports: SameDirectory, KeptApart, settings_identity
-/
import MainDob.Settings.Identity
import Mathlib.Data.List.Basic

namespace MainDob.Proofs.SettingsIdentity

open Fs (Path nameEqCi lower)
open Settings

/-! ### What is to be kept apart -/

/-- Two homes are one directory to the file system. -/
def SameDirectory (home other : Path) : Prop :=
  nameEqCi (withoutSlash home) (withoutSlash other) = true

instance (home other : Path) : Decidable (SameDirectory home other) :=
  inferInstanceAs (Decidable (_ = _))

/-- The home of the editor. -/
def editorHome : Path := buildHomeDir settingsEditorName

/-- Two processes have different settings files, and the first one is the editor
only in the editor's home. -/
structure KeptApart (one two : Process) : Prop where
  files : ∀ file ∈ callerFile one, ∀ other ∈ callerFile two, nameEqCi file.2 other.2 = false
  editor : callerIsEditor one = true → SameDirectory one.home editorHome

/-- The program name: what is behind the last slash of the home, the one at its
end not counted. -/
def program (process : Process) : Path := afterSlash (withoutSlash process.home)

/-! ### Comparisons -/

theorem nameEqCi_iff (name other : Path) :
    nameEqCi name other = true ↔ name.map lower = other.map lower := by
  induction name generalizing other with
  | nil => cases other <;> simp [nameEqCi]
  | cons _ _ ih => cases other <;> simp [nameEqCi, ih]

theorem nameEqCi_middle (front back name other : Path) :
    nameEqCi (front ++ name ++ back) (front ++ other ++ back) = nameEqCi name other := by
  rw [Bool.eq_iff_iff, nameEqCi_iff, nameEqCi_iff]
  simp

theorem nameEqCi_length {name other : Path} (same : nameEqCi name other = true) :
    name.length = other.length := by
  simpa using congrArg List.length ((nameEqCi_iff name other).mp same)

/-! ### Homes -/

section

variable (process : Process)
include process

theorem withoutSlash_home : withoutSlash process.home = homePrefix ++
      (withoutMdl process.name).take (homeDirSize - 2 - homePrefix.length) := by
  unfold Process.home buildHomeDir withoutSlash
  rw [if_pos (by simp), List.dropLast_concat]

theorem homeBasename_home : homeBasename process.home settingsMaxNameLen = if program process = [] ∨
      settingsMaxNameLen ≤ (program process).length then none else some (program process) := by
  unfold homeBasename
  have filled : process.home ≠ [] := by simp [Process.home, buildHomeDir]
  have slash : '/' ∈ withoutSlash process.home := by
    rw [withoutSlash_home]
    exact List.mem_append_left _ (by decide)
  rw [if_neg filled, if_neg (not_not_intro slash)]
  rfl

theorem callerFile_eq :
    callerFile process =
      if program process = [] ∨ settingsMaxNameLen ≤ (program process).length then
        none
      else
        some (program process, settingsDir ++ program process ++ ".setting".toList) := by
  unfold callerFile
  rw [homeBasename_home]
  by_cases taken : program process = [] ∨ settingsMaxNameLen ≤ (program process).length
  · rw [if_pos taken, if_pos taken]
  rw [if_neg taken, if_neg taken]
  rw [not_or, Nat.not_le] at taken
  have short : (program process).length < 64 := taken.2
  have whole : (program process).take (settingsMaxNameLen - 1) =
      program process := List.take_of_length_le (Nat.le_sub_one_of_lt short)
  have room : ¬ settingsPathMax ≤ settingsDir.length + (program process).length + 9 := by
    rw [show settingsPathMax = 192 from rfl,
      show settingsDir.length = 29 from by decide]
    omega
  dsimp only
  rw [if_neg room, whole]

theorem callerIsEditor_iff :
    callerIsEditor process = true ↔ program process = settingsEditorName := by
  unfold callerIsEditor
  rw [homeBasename_home, decide_eq_true_iff]
  constructor
  · split
    · exact nofun
    · exact Option.some.inj
  · intro editor
    rw [editor]
    decide

end

/-! ### The condition -/

/-- Two processes are kept apart exactly when their program names differ by more
than letter case, or are none the daemon takes, and a program with the editor's
name lives in the editor's home. -/
theorem settings_identity (one two : Process) : KeptApart one two ↔ (nameEqCi (program one)
    (program two) = false ∨ program one = [] ∨ settingsMaxNameLen ≤ (program one).length) ∧
      (program one = settingsEditorName → SameDirectory one.home editorHome) := by
  constructor
  · rintro ⟨files, editor⟩
    refine ⟨?_, fun named => editor ((callerIsEditor_iff one).mpr named)⟩
    by_cases taken : program one = [] ∨ settingsMaxNameLen ≤ (program one).length
    · exact .inr taken
    refine .inl (Bool.eq_false_iff.mpr fun same => ?_)
    have length := nameEqCi_length same
    have taken' : ¬ (program two = [] ∨ settingsMaxNameLen ≤ (program two).length) := by
      rw [← length, ← List.length_eq_zero_iff, ← length, List.length_eq_zero_iff]
      exact taken
    have apart := files _ (by rw [callerFile_eq, if_neg taken]; rfl) _
      (by rw [callerFile_eq, if_neg taken']; rfl)
    rw [nameEqCi_middle] at apart
    exact Bool.false_ne_true (apart.symm.trans same)
  · rintro ⟨names, editor⟩
    refine ⟨?_, fun isEditor => editor ((callerIsEditor_iff one).mp isEditor)⟩
    intro file isFile other isOther
    rw [callerFile_eq] at isFile isOther
    split at isFile
    · cases isFile
    next taken =>
    split at isOther
    · cases isOther
    cases isFile
    cases isOther
    rw [nameEqCi_middle]
    exact names.resolve_right taken

/-- `foo` and a program a directory further down: two homes, one settings file;
and a program of the editor's name that is not the editor. -/
theorem settings_identity_fails :
    ¬ SameDirectory (Process.home ⟨"foo".toList⟩) (Process.home ⟨"tools/foo".toList⟩) ∧
    callerFile ⟨"foo".toList⟩ = callerFile ⟨"tools/foo".toList⟩ ∧
    (callerFile ⟨"foo".toList⟩).isSome ∧
    ¬ KeptApart ⟨"foo".toList⟩ ⟨"tools/foo".toList⟩ ∧
    callerIsEditor ⟨"tools/DobSettings".toList⟩ = true ∧
    ¬ SameDirectory (Process.home ⟨"tools/DobSettings".toList⟩) editorHome := by
  refine ⟨by decide, by decide, by decide, ?_, by decide, by decide⟩
  intro apart
  have files := apart.files _ (by rw [callerFile_eq, if_neg (by decide)]; rfl) _
    (by rw [callerFile_eq, if_neg (by decide)]; rfl)
  exact absurd files (by decide)

end MainDob.Proofs.SettingsIdentity
