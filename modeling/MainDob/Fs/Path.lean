/-
Purpose: The path layer of `boot/DobFileSystem/main.c`: the textual checks a
  request passes (`validate_path`, `path_is_safe`, `sandbox_check`) and the walk
  over directory entries that `resolve_path` makes afterwards.
Trusted boundary: a C string is the list of its characters, without the final
  NUL; `is_driver` and `get_home_dir` are answered by the kernel; a directory
  is the list of entries `dir_iterate` hands to its callback, in its order,
  under the names it displays.
Main exports: Context, sandboxCheck, validatePath
-/
import Mathlib.Logic.Basic

namespace MainDob.Fs

abbrev Path := List Char

/-- `DOBFS_PATH_MAX`. -/
def pathMax : Nat := 512

/-- The copy out of the IPC buffer: `strncpy` and a final NUL. -/
def ipcPath (payload : Path) : Path := payload.take (pathMax - 1)

/-! ### Comparisons that ignore case -/

/-- The fold of the sandbox: ASCII letters become capitals. -/
def upper (c : Char) : Char :=
  if 'a' ≤ c ∧ c ≤ 'z' then Char.ofNat (c.toNat - 32) else c

/-- The fold of `find_entry_cb`: ASCII letters become small. -/
def lower (c : Char) : Char :=
  if 'A' ≤ c ∧ c ≤ 'Z' then Char.ofNat (c.toNat + 32) else c

/-- `path_starts_with_ci` with the length of `start`. -/
def pathStartsWithCi : Path → Path → Bool
  | _, [] => true
  | [], _ :: _ => false
  | a :: path, b :: start => upper a == upper b && pathStartsWithCi path start

def pathEqCi : Path → Path → Bool
  | [], [] => true
  | a :: path, b :: other => upper a == upper b && pathEqCi path other
  | _, _ => false

def pathEndsWithCi (path ending : Path) : Bool :=
  if path.length < ending.length then false
  else pathStartsWithCi (path.drop (path.length - ending.length)) ending

/-! ### The sandbox -/

/-- What `sandbox_check` asks about the server and the sender. -/
structure Context where
  mountSecondary : Bool
  isDriver : Nat → Bool
  getHomeDir : Nat → Option Path

/-- The last non-empty component of a home directory. -/
def homeBasename (home : Path) : Option Path :=
  let trimmed := if home.getLast? = some '/' then home.dropLast else home
  match trimmed.reverse.dropWhile (· ≠ '/') with
  | [] => none
  | _ :: _ => some (trimmed.reverse.takeWhile (· ≠ '/')).reverse

/-- The modules that may touch the configuration area. -/
def configModules : List Path :=
  ["config".toList, "init".toList, "phase2_init".toList,
    "DobFileSystem".toList, "hotplug".toList, "dobinterface".toList,
    "DobInstaller".toList, "MainDOB_Setup".toList]

def configAreaAllowed (ctx : Context) (sender : Nat) : Bool :=
  match ctx.getHomeDir sender with
  | none => false
  | some home =>
    match homeBasename home with
    | none => false
    | some name => configModules.contains name

/-- Is the path the directory, or does it start with the directory and a
slash? -/
def inArea (dir path : Path) : Bool :=
  pathStartsWithCi path (dir ++ ['/']) || pathEqCi path dir

def inConfigArea (path : Path) : Bool := inArea "/SYSTEM/CONFIG".toList path

/-- The public corner of the configuration area. -/
def inCommonFiles (path : Path) : Bool :=
  inArea "/SYSTEM/CONFIG/common_files".toList path

/-- The database of device scripts, which drivers may read. -/
def inDeviceScripts (path : Path) : Bool :=
  inArea "/SYSTEM/CONFIG/DAS".toList path

/-- The shared areas every program may read. -/
def readShared (path : Path) : Bool :=
  pathEndsWithCi path ".mem".toList ||
    pathStartsWithCi path "/DATA/".toList ||
    pathStartsWithCi path "/SYSTEM/PROGRAMS/".toList ||
    pathStartsWithCi path "/SYSTEM/GAMES/".toList ||
    pathEqCi path "/DATA".toList || pathEqCi path "/SYSTEM".toList ||
    pathEqCi path "/SYSTEM/PROGRAMS".toList ||
    pathEqCi path "/SYSTEM/GAMES".toList

/-- The areas a program may write: `/DATA/` and its home directory. -/
def writeOwn (ctx : Context) (sender : Nat) (path : Path) : Bool :=
  pathStartsWithCi path "/DATA/".toList ||
    match ctx.getHomeDir sender with
    | none => false
    | some home => !home.isEmpty && pathStartsWithCi path home

def sandboxCheck (ctx : Context) (sender : Nat) (path : Path) (isWrite : Bool) : Bool :=
  if ctx.mountSecondary then true
  else if inConfigArea path then
    if inCommonFiles path then true
    else if !isWrite && ctx.isDriver sender && inDeviceScripts path then true
    else configAreaAllowed ctx sender
  else if ctx.isDriver sender then true
  else if isWrite then writeOwn ctx sender path
  else readShared path

/-! ### Validation -/

def validatePath (ctx : Context) (path : Path) : Bool :=
  if path.head? ≠ some '/' then false
  else if path = ['/'] then true
  else if ctx.mountSecondary then true
  else
    pathStartsWithCi path "/SYSTEM/".toList || pathEqCi path "/SYSTEM".toList ||
      pathStartsWithCi path "/DATA/".toList || pathEqCi path "/DATA".toList

/-- No two dots in a row. -/
def pathIsSafe : Path → Bool
  | [] => true
  | c :: rest =>
    if c = '.' ∧ rest.head? = some '.' then false else pathIsSafe rest

/-- The checks every open, mkdir, unlink and rename makes on its paths. -/
def letsThrough (ctx : Context) (sender : Nat) (path : Path) (isWrite : Bool) :
    Bool :=
  validatePath ctx path && pathIsSafe path && sandboxCheck ctx sender path isWrite

/-! ### Resolution -/

/-- What a directory entry says to the walk: the name under which it is
displayed (the long name, or the short one where there is none), whether it is
a directory, and its first cluster. -/
structure DirEntry where
  name : Path
  directory : Bool
  cluster : Nat
deriving DecidableEq, Repr

/-- The entries of the directory at a cluster. -/
abbrev Listing := Nat → List DirEntry

/-- The comparison of `find_entry_cb`. -/
def nameEqCi : Path → Path → Bool
  | [], [] => true
  | a :: name, b :: other => lower a == lower b && nameEqCi name other
  | _, _ => false

/-- `dir_find_entry`: the first entry with the name. -/
def dirFindEntry (listing : Listing) (cluster : Nat) (name : Path) :
    Option DirEntry :=
  (listing cluster).find? (fun entry => nameEqCi name entry.name)

/-- The position of the last slash that something follows; `index` is the
position of the head of the text. -/
def lastSepFrom (index last : Nat) : Path → Nat
  | [] => last
  | c :: rest =>
    lastSepFrom (index + 1) (if c = '/' ∧ rest ≠ [] then index else last) rest

def lastSep (path : Path) : Nat := lastSepFrom 1 0 (path.drop 1)

/-- The loop over the intermediate directories: `rest` is the text from `p` on,
`left` how far `p` is from the end of the last separator. -/
def walkDirs (listing : Listing) : Nat → Path → Nat → Nat → Option Nat
  | 0, _, _, _ => none
  | fuel + 1, rest, left, cluster =>
    if left = 0 then some cluster
    else
      let component := (rest.takeWhile (· ≠ '/')).take (pathMax - 1)
      let after := rest.drop component.length
      let skip := if after.head? = some '/' then 1 else 0
      match dirFindEntry listing cluster component with
      | none => none
      | some entry =>
        if entry.directory then
          walkDirs listing fuel (after.drop skip) (left - (component.length + skip)) entry.cluster
        else none

/-- `resolve_path`: the directory the last component is looked up in, and that
component.  A slash at the end stays part of it. -/
def resolvePath (listing : Listing) (root : Nat) (path : Path) : Option (Nat × Path) :=
  if path.head? ≠ some '/' then none
  else if path = ['/'] then some (root, [])
  else
    let last := lastSep path
    if last = 0 then some (root, path.drop 1)
    else
      match walkDirs listing (path.length + 1) (path.drop 1) last root with
      | none => none
      | some cluster => some (cluster, path.drop (last + 1))

end MainDob.Fs
