/-
Purpose: The 32 bytes of a directory record in `boot/DobFileSystem/main.c`: the
  two layouts `fat32_dirent_t` and `fat32_lfn_t`, the records
  `write_dir_entries` writes, and what a scan reads in a record.
Trusted boundary: a character is a byte; the times of an entry are written as
  zero and never read.
Main exports: Record, buildLfnRecord, shortRecord
-/
import MainDob.Fs.Dir
import MainDob.Lib.Bytes

namespace MainDob.Fs.Fat

open Lib.Bytes (leBytes)

/-- The bytes of a record. -/
abbrev Record := List UInt8

/-- The character a byte stands for. -/
def byteChar (byte : UInt8) : Char := Char.ofNat byte.toNat

def charByte (c : Char) : UInt8 := UInt8.ofNat c.toNat

/-! ### Writing -/

/-- `lfn_checksum`, over the eight and three characters. -/
def lfnChecksum (short : List Char) : Nat :=
  short.foldl (fun sum c =>
    ((if sum % 2 = 1 then 0x80 else 0) + sum / 2 + c.toNat) % 256) 0

/-- The unit at a place of a long name: a character, the terminator or padding. -/
def lfnUnit (name : Path) (place : Nat) : Nat :=
  match name[place]? with
  | some c => c.toNat % 256
  | none => if place = name.length then 0x0000 else 0xFFFF

/-- The units at the places from `place` on. -/
def lfnUnits (name : Path) (place count : Nat) : List UInt8 :=
  (List.range' place count).flatMap fun place => leBytes 2 (lfnUnit name place)

/-- `build_lfn_entry`. -/
def buildLfnRecord (seq : Nat) (isLast : Bool) (name : Path) (checksum : Nat) :
    Record :=
  let offset := (seq - 1) * 13
  UInt8.ofNat (if isLast then seq ||| 0x40 else seq) ::
    (lfnUnits name offset 5 ++ [UInt8.ofNat attrLfn, 0, UInt8.ofNat checksum] ++
      lfnUnits name (offset + 5) 6 ++ leBytes 2 0 ++ lfnUnits name (offset + 11) 2)

/-- The short entry, as `write_dir_entries` puts it. -/
def shortRecord (short : List Char) (first size attr : Nat) : Record :=
  short.map charByte ++ [UInt8.ofNat attr] ++ List.replicate 8 0 ++
    leBytes 2 (first / 65536) ++ List.replicate 4 0 ++ leBytes 2 (first % 65536) ++ leBytes 4 size

/-- `write_dir_entries`. -/
def writeDirEntries (name : Path) (lfnCount : Nat) (short : List Char)
    (first size attr : Nat) : List Record :=
  ((List.range' 1 lfnCount).reverse.map fun seq =>
    buildLfnRecord seq (seq == lfnCount) name (lfnChecksum short)) ++
    [shortRecord short first size attr]

/-! ### Reading -/

/-- The byte at an offset. -/
def Record.byte (record : Record) (off : Nat) : Nat := (record.getD off 0).toNat

/-- The low bytes of `count` units from an offset on. -/
def unitChars (record : Record) (off count : Nat) : List Char :=
  (List.range count).map fun i => byteChar (record.getD (off + 2 * i) 0)

/-- The characters `lfn_extract_chars` takes: those of `name1`, `name2` and
`name3`. -/
def recordChars (record : Record) : List Char :=
  unitChars record 1 5 ++ unitChars record 14 6 ++ unitChars record 28 2

/-- What a scan reads in a record. -/
def recordSlot (record : Record) : Slot :=
  if Record.byte record 11 = attrLfn then
    ⟨Record.byte record 0, recordChars record, attrLfn, 0, 0⟩
  else
    { mark := Record.byte record 0
      name := ((record.drop 1).take 10).map byteChar
      attr := Record.byte record 11
      cluster := Lib.Bytes.getLe 2 20 (fun i => record.getD i 0) * 65536 +
        Lib.Bytes.getLe 2 26 (fun i => record.getD i 0)
      size := Lib.Bytes.getLe 4 28 (fun i => record.getD i 0) }

end MainDob.Fs.Fat
