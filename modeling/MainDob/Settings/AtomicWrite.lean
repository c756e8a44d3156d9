/-
Purpose: `write_file_atomic` of `boot/settingsd/main.c`, call by call, over files that are
  renamed and unlinked as `DobFileSystem` does it.
Trusted boundary: a call that fails changes nothing, except that a close which cannot flush
  leaves some text in its file; `handle_close` then answers `DOB_OK` all the same
Main exports: Response, Outcome, writeFileAtomic
-/
import Mathlib.Logic.Function.Basic
import MainDob.Settings.Identity
import MainDob.Settings.TextFile

namespace MainDob.Settings

open Function (update)
open Fs (Path)

/-- The text of every file. -/
abbrev Files := Path → Option Text

/-- How a call goes: it does all, or a write takes so many bytes, or it fails. -/
inductive Response where
  | done
  | short (bytes : Nat)
  | failed (left : Text)

def Response.ok : Response → Bool
  | .failed _ => false
  | _ => true

/-- What `dobfs_Write` takes of the bytes it is given; 0 where it fails. -/
def Response.taken (r : Response) (len : Nat) : Nat :=
  match r with
  | .done => len
  | .short bytes => min bytes len
  | .failed _ => 0

/-- What is in a file after `dobfs_Close`. -/
def Response.leaves (r : Response) (text : Text) : Text :=
  match r with
  | .failed left => left
  | _ => text

/-- `handle_rename`: the target must not exist. -/
def rename (files : Files) (src dst : Path) : Option Files :=
  match files src, files dst with
  | some text, none => some (update (update files src none) dst (some text))
  | _, _ => none

/-- `handle_unlink`. -/
def unlink (files : Files) (path : Path) : Option Files :=
  (files path).map fun _ => update files path none

/-- The files, and what was returned; `none` where the run stopped before. -/
structure Outcome where
  files : Files
  result : Option Bool

/-- What follows a rename that did not replace the file. -/
def fallback (path tmp : Path) (files : Files) : List Response → Outcome
  | [] => ⟨files, none⟩
  | second :: responses =>
    let files := ((if second.ok then unlink files path else none).getD files)
    match responses with
    | [] => ⟨files, none⟩
    | third :: _ =>
      match if third.ok then rename files tmp path else none with
      | some files => ⟨files, some true⟩
      | none => ⟨files, some false⟩

/-- The end of `write_file_atomic`, from the close on. -/
def finish (path tmp : Path) (data : Text) (files : Files) : List Response → Outcome
  | [] => ⟨files, none⟩
  | close :: responses =>
    let files := update files tmp (some (close.leaves data))
    match responses with
    | [] => ⟨files, none⟩
    | first :: responses =>
      match if first.ok then rename files tmp path else none with
      | some files => ⟨files, some true⟩
      | none => fallback path tmp files responses

/-- The loop over `dobfs_Write`. -/
def writeLoop (path tmp : Path) (data : Text) (done : Nat) (files : Files) : List Response → Outcome
  | [] => ⟨files, none⟩
  | r :: responses =>
    if done < data.length then
      let written := r.taken (data.length - done)
      if written = 0 then
        match responses with
        | [] => ⟨files, none⟩
        | close :: _ =>
          ⟨update files tmp (some (close.leaves (data.take done))), some false⟩
      else
        writeLoop path tmp data (done + written)
          (update files tmp (some (data.take (done + written)))) responses
    else finish path tmp data files (r :: responses)

/-- `write_file_atomic`; the run stops where there is no response left. -/
def writeFileAtomic (path : Path) (data : Text) (responses : List Response) (files : Files) :
    Outcome :=
  if path.length + 5 ≥ settingsPathMax then ⟨files, some false⟩
  else
    let tmp := path ++ ".tmp".toList
    match responses with
    | [] => ⟨files, none⟩
    | r :: responses =>
      if r.ok then writeLoop path tmp data 0 (update files tmp (some [])) responses
      else ⟨files, some false⟩

end MainDob.Settings
