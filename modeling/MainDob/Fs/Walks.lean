/-
Purpose: The loops of `boot/DobFileSystem/main.c` over cluster chains, as loops
  that need not end: `dir_iterate`, the lookups of `resolve_path`, the walk of
  `fd_ensure_clusters` that measures a chain, and `fat_free_chain`.
Trusted boundary: which clusters can be read from the disk is given from
  outside.
Main exports: iterStep, lookupRun, resolvePathRun
-/
import MainDob.Fs.Stream
import MainDob.Lib.Loops

namespace MainDob.Fs.Fat

open Lib

/-- Where `dir_iterate` is: the next cluster, and the long name so far. -/
structure IterState where
  vol : Volume
  cluster : Nat
  lfn : LfnState

/-- A round of `dir_iterate`. -/
def iterStep (readable : Nat → Bool) (stop : Slot → Path → Bool)
    (s : IterState) : IterState ⊕ (Option Found × Volume) :=
  if 2 ≤ s.cluster ∧ fatIsEoc s.cluster = false then
    if readable s.cluster = false then .inr (none, s.vol)
    else
      let (next, v) := fatRead s.vol s.cluster
      match scanSlots stop (fatIsEoc next) s.cluster (v.slots s.cluster) 0 s.lfn with
      | .found entry => .inr (some entry, v)
      | .ended => .inr (none, v)
      | .more lfn => .inl ⟨v, next, lfn⟩
  else .inr (none, s.vol)

/-- `dir_find_entry`, where its walk takes no more than so many rounds. -/
def lookupRun (readable : Nat → Bool) (rounds : Nat) (v : Volume) (cluster : Nat)
    (name : Path) : Option (Option Found × Volume) :=
  Loops.run (iterStep readable fun _ other => nameEqCi name other) rounds
    ⟨v, cluster, LfnState.start⟩

/-- The loop of `resolve_path` over the intermediate directories, as in
`walkLoop`; it has no result where a lookup needs more rounds. -/
def walkRun (readable : Nat → Bool) (rounds : Nat) :
    Nat → Volume → Path → Nat → Nat → Option (Option Nat × Volume)
  | 0, v, _, _, _ => some (none, v)
  | fuel + 1, v, rest, left, cluster =>
    if left = 0 then some (some cluster, v)
    else
      let component := (rest.takeWhile (· ≠ '/')).take (pathMax - 1)
      let after := rest.drop component.length
      let skip := if after.head? = some '/' then 1 else 0
      match lookupRun readable rounds v cluster component with
      | none => none
      | some (none, v) => some (none, v)
      | some (some entry, v) =>
        if Slot.directory entry.slot then
          walkRun readable rounds fuel v (after.drop skip)
            (left - (component.length + skip)) entry.slot.cluster
        else some (none, v)

def resolvePathRun (readable : Nat → Bool) (rounds : Nat) (v : Volume)
    (path : Path) : Option (Option (Nat × Path) × Volume) :=
  if path.head? ≠ some '/' then some (none, v)
  else if path = ['/'] then some (some (v.rootCluster, []), v)
  else
    let last := lastSep path
    if last = 0 then some (some (v.rootCluster, path.drop 1), v)
    else
      (walkRun readable rounds (path.length + 1) v (path.drop 1) last
        v.rootCluster).map fun (parent, v) =>
          (parent.map (fun cluster => (cluster, path.drop (last + 1))), v)

/-- A round of the walk of `fd_ensure_clusters` over a chain it has no length
of: the volume, the cluster and the length so far. -/
def measureStep (s : Volume × Nat × Nat) : (Volume × Nat × Nat) ⊕ ((Nat × Nat) × Volume) :=
  let (v, cluster, len) := s
  let (next, v) := fatRead v cluster
  if fatIsEoc next then .inr ((cluster, len), v)
  else
    let (next, v) := fatRead v cluster
    .inl (v, next, len + 1)

/-- A round of `fat_free_chain`. -/
def freeStep (s : Volume × Nat) : (Volume × Nat) ⊕ Volume :=
  let (v, cluster) := s
  if 2 ≤ cluster ∧ fatIsEoc cluster = false ∧ cluster ≠ fat32Bad then
    let (next, v) := fatRead v cluster
    .inl ((fatWrite v cluster fat32Free).2, next)
  else .inr v

end MainDob.Fs.Fat
