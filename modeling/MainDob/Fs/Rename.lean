/-
Purpose: The request RENAME of `boot/DobFileSystem/main.c` on a FAT32 mount.
Trusted boundary: the volume is mounted; the payload is the text from where it
  starts in the IPC buffer, which ends with a NUL.
Main exports: renamePaths, moveEntry, renameEntry
-/
import MainDob.Fs.Stream

namespace MainDob.Fs.Fat

/-- The two paths in a payload of `size` characters. -/
def renamePaths (payload : Path) (size : Nat) : Option (Path × Path) :=
  if size < 4 then none
  else
    let old := cString payload
    if size < old.length + 2 then none
    else some (ipcPath old, ipcPath (cString (payload.drop (old.length + 1))))

/-- The rollback, after which no outcome is looked at. -/
def restoreEntry (v : Volume) (old : Path) (slot : Slot) : Volume :=
  match resolvePath v old with
  | (none, v) => v
  | (some (parent, basename), v) =>
    (dirAddEntry v parent basename slot.cluster slot.size slot.attr).2

/-- What `handle_rename` writes once its checks have passed; the outcome of
`dir_remove_entry` is not looked at. -/
def moveEntry (v : Volume) (old : Path) (entry : Found) (parent : Nat)
    (basename : Path) : Status × Volume :=
  let v := (dirRemoveEntry v entry.cluster entry.index).2
  match dirAddEntry v parent basename entry.slot.cluster entry.slot.size
      entry.slot.attr with
  | (true, v) => (.ok, fatFlush v)
  | (false, v) => (.internal, fatFlush (restoreEntry v old entry.slot))

def renameEntry (v : Volume) (old new : Path) : Status × Volume :=
  match resolveFullPath v old with
  | (none, v) => (.notFound, v)
  | (some entry, v) =>
    match resolvePath v new with
    | (none, v) => (.notFound, v)
    | (some (parent, basename), v) =>
      match resolveFullPath v new with
      | (some _, v) => (.denied, v)
      | (none, v) => moveEntry v old entry parent basename

def handleRename (s : Server) (sender : Nat) (payload : Path) (size : Nat) : Status × Server :=
  match renamePaths payload size with
  | none => (.invalid, s)
  | some (old, new) =>
    if !letsThrough s.ctx sender old true || !letsThrough s.ctx sender new true
    then (.denied, s)
    else
      let (status, v) := renameEntry s.vol old new
      (status, { s with vol := v })

end MainDob.Fs.Fat
