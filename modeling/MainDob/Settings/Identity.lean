/-
Purpose: How `boot/settingsd/main.c` tells its callers apart: the home directory
  the kernel gives a process, the program name taken from it, the settings file
  deduced from the name, and the test for the editor.
Trusted boundary: a C string is the list of its characters, without the final
  NUL; the file system finds a file by a path in any letter case, as
  `find_entry_cb` compares names.
Main exports: buildHomeDir, Process, homeBasename
-/
import MainDob.Fs.Path

namespace MainDob.Settings

open Fs (Path)

/-! ### The home of a process -/

/-- `sizeof(proc->home_dir)`. -/
def homeDirSize : Nat := 128

/-- The start of every home directory. -/
def homePrefix : Path := "/SYSTEM/PROGRAMS/".toList

/-- The name of a process without `.mdl` at its end. -/
def withoutMdl (name : Path) : Path :=
  match name.reverse with
  | l :: d :: m :: '.' :: rest =>
    if (m = 'm' ∨ m = 'M') ∧ (d = 'd' ∨ d = 'D') ∧ (l = 'l' ∨ l = 'L') then
      rest.reverse
    else name
  | _ => name

/-- `build_home_dir` of the kernel; what does not fit is cut off. -/
def buildHomeDir (name : Path) : Path :=
  homePrefix ++ (withoutMdl name).take (homeDirSize - 2 - homePrefix.length) ++ ['/']

/-- A process, as the daemon knows it: by the home directory it is spawned with,
under the name its parent chooses. -/
structure Process where
  name : Path
deriving DecidableEq

def Process.home (process : Process) : Path := buildHomeDir process.name

/-! ### The daemon -/

def settingsMaxNameLen : Nat := 64

def settingsPathMax : Nat := 192

def settingsDir : Path := "/SYSTEM/PROGRAMS/DobSettings/".toList

def settingsEditorName : Path := "DobSettings".toList

/-- A home without the slash at its end. -/
def withoutSlash (home : Path) : Path :=
  if home.getLast? = some '/' then home.dropLast else home

/-- What follows the last slash. -/
def afterSlash (path : Path) : Path :=
  (path.reverse.takeWhile (· ≠ '/')).reverse

/-- `home_basename` into a buffer of `outCap` bytes. -/
def homeBasename (home : Path) (outCap : Nat) : Option Path :=
  if home = [] then none
  else if '/' ∉ withoutSlash home then none
  else
    let base := afterSlash (withoutSlash home)
    if base = [] ∨ outCap ≤ base.length then none else some base

/-- `caller_file`: the name of the program and the path of its settings. -/
def callerFile (process : Process) : Option (Path × Path) :=
  match homeBasename process.home settingsMaxNameLen with
  | none => none
  | some name =>
    if settingsPathMax ≤ settingsDir.length + name.length + 9 then none
    else
      some (name.take (settingsMaxNameLen - 1),
        settingsDir ++ name ++ ".setting".toList)

/-- `caller_is_editor`. -/
def callerIsEditor (process : Process) : Bool :=
  homeBasename process.home settingsMaxNameLen = some settingsEditorName

end MainDob.Settings
