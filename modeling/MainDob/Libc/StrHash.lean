/-
Purpose: The string table of `libc/include/strhash.h`: open addressing with linear probing,
  a fixed capacity, and tombstones in the slots that were freed.
Trusted boundary: a C string is the list of its bytes, without the final NUL; a pointer
  to an entry is its index; the storage has `capacity` entries
Main exports: Entry, Table, strhashFind
-/
import Mathlib.Algebra.Ring.Nat

namespace MainDob.Libc.StrHash

abbrev Str := List UInt8

def strhashMaxKey : Nat := 128

def strhashMaxVal : Nat := 256

/-- The states of an entry: `STRHASH_EMPTY`, `STRHASH_OCCUPIED` and `STRHASH_TOMBSTONE`. -/
inductive Used where
  | empty
  | occupied
  | tombstone
deriving DecidableEq

/-- A `strhash_entry_t`. -/
structure Entry where
  key : Str := []
  value : Str := []
  used : Used := .empty
deriving DecidableEq

/-- `sizeof(strhash_entry_t)`. -/
def entrySize : Nat := strhashMaxKey + strhashMaxVal + 1

/-- The storage a table is given: an array in a 32-bit address space. -/
structure Storage where
  capacity : Nat
  fits : capacity * entrySize < 2 ^ 32

/-- A `strhash_t`. -/
structure Table where
  entries : List Entry
  count : Nat
deriving DecidableEq

def Table.capacity (ht : Table) : Nat := ht.entries.length

/-- `ht->entries[pos]`. -/
def Table.entry (ht : Table) (pos : Nat) : Entry := ht.entries.getD pos {}

/-- `_strhash_fn`. -/
def strhashFn (s : Str) (cap : Nat) : Nat :=
  (s.foldl (fun h c => h * 33 + c.toUInt32) (5381 : UInt32)).toNat &&& (cap - 1)

/-- `strhash_init`. -/
def strhashInit (storage : Storage) : Table where
  entries := List.replicate storage.capacity {}
  count := 0

/-- Whether `strncmp` finds no difference. -/
def strncmpSame (a b : Str) (n : Nat) : Bool := a.take n = b.take n

/-- `strncpy` of all but the last byte of an array, which is then cleared. -/
def strncpyArray (size : Nat) (s : Str) : Str := s.take (size - 1)

/-- The slot that the loops look at in round `i`. -/
def Table.pos (ht : Table) (key : Str) (i : Nat) : Nat :=
  (strhashFn key ht.capacity + i) % 2 ^ 32 &&& (ht.capacity - 1)

/-- The loop of `strhash_find` returns at this entry. -/
def Entry.ends (e : Entry) (key : Str) : Bool :=
  match e.used with
  | .empty => true
  | .tombstone => false
  | .occupied => strncmpSame e.key key strhashMaxKey

/-- `strhash_find`. -/
def strhashFind (ht : Table) (key : Str) : Option Nat :=
  match (List.range ht.capacity).find? fun i => (ht.entry (ht.pos key i)).ends key with
  | some i => if (ht.entry (ht.pos key i)).used = .empty then none else some (ht.pos key i)
  | none => none

/-- `strhash_set`. -/
def strhashSet (ht : Table) (key value : Str) : Option Nat × Table :=
  match strhashFind ht key with
  | some p =>
    let e := { ht.entry p with value := strncpyArray strhashMaxVal value }
    (some p, { ht with entries := ht.entries.set p e })
  | none =>
    if ht.count ≥ ht.capacity * 3 % 2 ^ 32 / 4 then (none, ht)
    else
      match (List.range ht.capacity).find? fun i =>
        (ht.entry (ht.pos key i)).used ≠ .occupied with
      | some i =>
        let e :=
          { key := strncpyArray strhashMaxKey key
            value := strncpyArray strhashMaxVal value
            used := .occupied }
        (some (ht.pos key i), ⟨ht.entries.set (ht.pos key i) e, ht.count + 1⟩)
      | none => (none, ht)

/-- `strhash_remove`. -/
def strhashRemove (ht : Table) (key : Str) : Bool × Table :=
  match strhashFind ht key with
  | some p =>
    let e := { ht.entry p with used := .tombstone, key := [] }
    (true, ⟨ht.entries.set p e, ht.count - 1⟩)
  | none => (false, ht)

/-- The value that `strhash_find` leads to. -/
def Table.value (ht : Table) (key : Str) : Option Str :=
  (strhashFind ht key).map fun p => (ht.entry p).value

end MainDob.Libc.StrHash
