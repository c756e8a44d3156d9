/-
Purpose: The partition scanner of libdob/src/partition.c: the MBR of a disk is
  compared with what was announced for the disk last, and hotplug is posted the
  volumes that went and came.
Trusted boundary: a name is the list of its bytes without the final NUL; whether
  hotplug is registered, what the disk returns for sector 0 and which posts the
  kernel accepts are inputs of a scan; nothing calls partition_scan_forget
Main exports: MbrPartition, partitionMbrParse, DiskState
-/
import MainDob.Lib.Bytes

namespace MainDob.Fs.Partition

open Lib.Bytes

/-- The bytes of a name. -/
abbrev Name := List UInt8

/-- `mbr_partition_t`. -/
structure MbrPartition where
  active : Nat
  type : Nat
  startLba : Nat
  sectors : Nat
deriving Repr, DecidableEq

/-- What `memset` leaves of an entry. -/
def blank : MbrPartition := ⟨0, 0, 0, 0⟩

/-- `mbr_table_t`; the entries are those from 0 to 3. -/
structure MbrTable where
  validSignature : Bool
  entries : Nat → MbrPartition

def mbrMaxPrimary : Nat := 4

/-- `partition_mbr_parse`. -/
def partitionMbrParse (s : Nat → UInt8) : MbrTable where
  validSignature := s 510 == 0x55 && s 511 == 0xAA
  entries i :=
    let e := 446 + i * 16
    ⟨(s e).toNat, (s (e + 4)).toNat, getLe 4 (e + 8) s, getLe 4 (e + 12) s⟩

/-- `partition_type_is_fat32`. -/
def typeIsFat32 (type : Nat) : Bool := type == 0x0B || type == 0x0C

/-- `partition_type_is_exfat`. -/
def typeIsExfat (type : Nat) : Bool := type == 0x07

/-- A `disk_state_t` in use. -/
structure DiskState where
  service : Name
  selector : Nat
  entries : Nat → MbrPartition

/-- `g_state`: a slot that is not in use is `none`. -/
abbrev Table := List (Option DiskState)

/-- `strncmp(a, b, 32) == 0`. -/
def sameName (a b : Name) : Bool := (a ++ [0]).take 32 == (b ++ [0]).take 32

/-- What `state_find` looks for in a slot. -/
def names (service : Name) (selector : Nat) : Option DiskState → Bool
  | none => false
  | some st => st.selector == selector && sameName st.service service

/-- `state_get_or_alloc`: the slot and what it holds then. -/
def stateGetOrAlloc (table : Table) (service : Name) (selector : Nat) : Option (Nat × DiskState) :=
  match table.findIdx? (names service selector) with
  | some i => (table[i]?.join).map (i, ·)
  | none => (table.findIdx? Option.isNone).map
      (·, ⟨service.take 31, selector, fun _ => blank⟩)

/-- `make_token`. -/
def makeToken (nativeSelector partitionIndex : Nat) : Nat :=
  (partitionIndex <<< 24) ||| (nativeSelector &&& 0xFFFFFF)

/-- A volume as hotplug is told of it: by service and token. -/
structure Volume where
  service : Name
  token : Nat
  exfat : Bool
  startLba : Nat
deriving Repr, DecidableEq

/-- A message to hotplug. -/
inductive Post where
  | appeared (volume : Volume)
  | gone (service : Name) (token : Nat)
deriving Repr, DecidableEq

/-- A call of `partition_scan_announce`: the identity of the disk, and what the
world answers. -/
structure Scan where
  service : Name
  selector : Nat
  hotplug : Bool
  sector0 : Option (Nat → UInt8)
  accepts : Post → Bool

/-- What the library remembers, and the volumes hotplug was told of and not told
to be gone. -/
structure State where
  table : Table
  told : List Volume

/-- What a post does to the volumes hotplug was told of. -/
def tell (told : List Volume) : Post → List Volume
  | .appeared volume => volume :: told
  | .gone service token =>
    told.filter fun v => !(v.service == service && v.token == token)

/-- `dob_ipc_post`: a post that is not accepted does nothing. -/
def post (scan : Scan) (told : List Volume) (message : Post) : List Volume :=
  if scan.accepts message then tell told message else told

/-- The volume that `emit_appeared` describes. -/
def volumeOf (service : Name) (selector i : Nat) (e : MbrPartition) : Volume :=
  ⟨service.take 31, makeToken selector i, typeIsExfat e.type, e.startLba⟩

/-- `entries_match`. -/
def entriesMatch (a b : MbrPartition) : Bool :=
  a.type != 0 && b.type != 0 && a.type == b.type && a.startLba == b.startLba

/-- `had` and `has`. -/
def present (e : MbrPartition) : Bool := e.type != 0 && e.sectors != 0

/-- The comparison of slot `i`.  What the posts return is not looked at. -/
def diffSlot (scan : Scan) (was now : Nat → MbrPartition) (told : List Volume)
    (i : Nat) : List Volume :=
  if present (was i) && present (now i) && entriesMatch (was i) (now i) then told
  else
    let told :=
      if present (was i) then
        post scan told (.gone (scan.service.take 31) (makeToken scan.selector i))
      else told
    if present (now i) then
      post scan told (.appeared (volumeOf scan.service scan.selector i (now i)))
    else told

/-- An entry of the new set. -/
def interesting (table : MbrTable) (i : Nat) : MbrPartition :=
  let e := table.entries i
  if table.validSignature && (typeIsFat32 e.type || typeIsExfat e.type) && e.sectors != 0 then e
  else blank

/-- `partition_scan_announce`. -/
def partitionScanAnnounce (s : State) (scan : Scan) : Bool × State :=
  if !scan.hotplug then (false, s)
  else
    match scan.sector0 with
    | none => (false, s)
    | some sector =>
      let newSet := interesting (partitionMbrParse sector)
      match stateGetOrAlloc s.table scan.service scan.selector with
      | none => (false, s)
      | some (slot, st) =>
        (true,
          { table := s.table.set slot (some { st with entries := newSet })
            told := (List.range mbrMaxPrimary).foldl
              (diffSlot scan st.entries newSet) s.told })

/-- The posts that the comparison of slot `i` makes. -/
def slotPosts (scan : Scan) (was now : Nat → MbrPartition) (i : Nat) :
    List Post :=
  if present (was i) && present (now i) && entriesMatch (was i) (now i) then []
  else
    (if present (was i) then
      [.gone (scan.service.take 31) (makeToken scan.selector i)] else []) ++
    if present (now i) then
      [.appeared (volumeOf scan.service scan.selector i (now i))] else []

/-- The posts that `partition_scan_announce` makes. -/
def postsMade (s : State) (scan : Scan) : List Post :=
  match scan.hotplug, scan.sector0,
    stateGetOrAlloc s.table scan.service scan.selector with
  | true, some sector, some (_, st) =>
    (List.range mbrMaxPrimary).flatMap
      (slotPosts scan st.entries (interesting (partitionMbrParse sector)))
  | _, _, _ => []

/-- At first no slot is in use, and hotplug has been told nothing. -/
def initial : State := ⟨List.replicate 48 none, []⟩

/-- The scans of a driver, one after the other. -/
def run (scans : List Scan) : State :=
  scans.foldl (fun s scan => (partitionScanAnnounce s scan).2) initial

/-- The FAT32 and exFAT partitions that an MBR lists, as volumes of a disk. -/
def volumesIn (service : Name) (selector : Nat) (sector : Nat → UInt8) :
    List Volume :=
  let table := partitionMbrParse sector
  if table.validSignature then
    (List.range mbrMaxPrimary).filterMap fun i =>
      let e := table.entries i
      if (typeIsFat32 e.type || typeIsExfat e.type) && e.sectors != 0 then
        some (volumeOf service selector i e)
      else none
  else []

end MainDob.Fs.Partition
