/-
Purpose: The configuration server `boot/config/main.c`: the two tables, the text files they
  are written to after a pause, and the parser that reads the files at the next start.
Trusted boundary: the file system does not fail; a request carries its C strings
Main exports: parseKeyvalue, serialize, Store
-/
import Mathlib.Data.List.DropRight
import MainDob.Libc.StrHash

namespace MainDob.Config

open Libc.StrHash

def fileBufSize : Nat := 8192

def persistDebounceMs : UInt32 := 2000

/-- `CONFIG_CAPACITY`. -/
def configStorage : Storage := ⟨512, by decide⟩

/-- `ASSOC_CAPACITY`. -/
def assocStorage : Storage := ⟨128, by decide⟩

def isBlank (c : UInt8) : Bool := c = 32 || c = 9

def isBreak (c : UInt8) : Bool := c = 10 || c = 13

/-- A line with an `=` behind a key: both parts are cut to their arrays and trimmed. -/
def parseLine (line : Str) (db : Table) : Table :=
  match line.takeWhile (· ≠ 61), line.dropWhile (· ≠ 61) with
  | c :: key, _ :: val =>
    let key := ((c :: key).take (strhashMaxKey - 1)).rdropWhile (· = 32)
    let val := (val.take (strhashMaxVal - 1)).dropWhile isBlank
    (strhashSet db (key.takeWhile (· ≠ 0)) (val.takeWhile (· ≠ 0))).2
  | _, _ => db

/-- Rounds of the loop in `parse_keyvalue`, each of which takes at least one byte. -/
def parseRounds : Nat → Str → Table → Table
  | 0, _, db => db
  | rounds + 1, text, db =>
    match text.dropWhile isBlank with
    | [] => db
    | c :: rest =>
      if c = 35 ∨ isBreak c then parseRounds rounds ((c :: rest).dropWhile (· ≠ 10)).tail db
      else
        parseRounds rounds ((c :: rest).dropWhile (! isBreak ·)).tail
          (parseLine ((c :: rest).takeWhile (! isBreak ·)) db)

/-- `parse_keyvalue`. -/
def parseKeyvalue (text : Str) (db : Table) : Table := parseRounds text.length text db

/-- The loop of `serialize_settings`, the same in `persist_associations`. -/
def serializeLoop (out : Str) : List Entry → Str
  | [] => out
  | e :: rest =>
    if e.used ≠ .occupied then serializeLoop out rest
    else if out.length + e.key.length + 1 + e.value.length + 1 ≥ fileBufSize then out
    else serializeLoop (out ++ e.key ++ 61 :: e.value ++ [10]) rest

def serialize (db : Table) : Str := serializeLoop [] db.entries

/-- A table with its dirty flag, the time of its last change, and its file, where the server
has written it. -/
structure Store where
  db : Table
  dirty : Bool
  lastSetMs : UInt32
  file : Option Str

structure Server where
  settings : Store
  assoc : Store

/-- The table is due to be written. -/
def Store.due (st : Store) (now : UInt32) : Bool :=
  st.dirty && now - st.lastSetMs ≥ persistDebounceMs

/-- One half of `maybe_flush`. -/
def Store.flush (st : Store) (now : UInt32) : Store :=
  if st.due now then { st with dirty := false, file := some (serialize st.db) } else st

/-- `strhash_set`, and the marks of a change. -/
def Store.set (st : Store) (key value : Str) (now : UInt32) : Bool × Store :=
  match strhashSet st.db key value with
  | (some _, db) => (true, { st with db, dirty := true, lastSetMs := now })
  | (none, db) => (false, { st with db })

/-- `strhash_remove`, whose result is never negative, and the marks of a change. -/
def Store.remove (st : Store) (key : Str) (now : UInt32) : Bool × Store :=
  (true, { st with db := (strhashRemove st.db key).2, dirty := true, lastSetMs := now })

/-- The requests; those that change nothing still flush. -/
inductive Request where
  | set (key value : Str)
  | setAssoc (ext prog : Str)
  | removeAssoc (ext : Str)
  | other

/-- `handle_message`, with what `clock_ms` gives to the flush and to the change. -/
def handleMessage (s : Server) (request : Request) (now later : UInt32) : Bool × Server :=
  let s : Server := ⟨s.settings.flush now, s.assoc.flush now⟩
  match request with
  | .set key value =>
    let (ok, settings) := s.settings.set key value later
    (ok, { s with settings })
  | .setAssoc ext prog =>
    let (ok, assoc) := s.assoc.set ext prog later
    (ok, { s with assoc })
  | .removeAssoc ext =>
    let (ok, assoc) := s.assoc.remove ext later
    (ok, { s with assoc })
  | .other => (true, s)

end MainDob.Config
