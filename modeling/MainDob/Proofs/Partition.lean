/-
Purpose: What hotplug has been told about a disk follows what the scanner remembers of it, as long
  as the posts about the disk are accepted.
Trusted boundary: none (fully proved)
Main exports: Holds, diffSlot_holds, announcements_in_step
-/
import MainDob.Fs.Partition
import Mathlib.Data.List.Induction

namespace MainDob.Fs.Partition

open Lib.Bytes
open List

/-- A disk: the service that provides it, and the selector of the disk there. -/
structure Disk where
  service : Name
  selector : Nat

/-- The identity fits its fields: a name with its NUL in 32 bytes, a selector in
the 24 bits that a token has for it. -/
structure Disk.Fits (disk : Disk) : Prop where
  service : disk.service.length ≤ 31
  selector : disk.selector < 2 ^ 24

/-- The disk that is scanned. -/
def Scan.disk (scan : Scan) : Disk := ⟨scan.service, scan.selector⟩

/-- The volume is one of the four that a disk can have. -/
def Volume.Of (v : Volume) (disk : Disk) : Prop :=
  v.service = disk.service ∧ ∃ i < mbrMaxPrimary, v.token = makeToken disk.selector i

theorem makeToken_eq (selector i : Nat) :
    makeToken selector i = i * 2 ^ 24 + selector % 2 ^ 24 := by
  have low : selector % 2 ^ 24 < 2 ^ 24 := Nat.mod_lt _ (by decide)
  unfold makeToken
  rw [show 0xFFFFFF = 2 ^ 24 - 1 by decide, Nat.and_two_pow_sub_one_eq_mod,
    Nat.shiftLeft_eq, mul_comm, ← Nat.two_pow_add_eq_or_of_lt low]

variable {i : Nat}

theorem makeToken_inj {one two j : Nat} (fitsOne : one < 2 ^ 24) (fitsTwo : two < 2 ^ 24)
    (same : makeToken one i = makeToken two j) : one = two ∧ i = j := by
  rw [makeToken_eq, makeToken_eq, Nat.mod_eq_of_lt fitsOne, Nat.mod_eq_of_lt fitsTwo] at same
  omega

/-! ### One slot of the comparison -/

/-- The volume in slot `i` of the disk that hotplug knows is that of entry `e`. -/
def Holds (told : List Volume) (disk : Disk) (i : Nat) (e : MbrPartition) : Prop :=
  ∀ v : Volume, v.service = disk.service → v.token = makeToken disk.selector i →
    (v ∈ told ↔ present e = true ∧ v = volumeOf disk.service disk.selector i e)

/-- What a post is about. -/
def Post.about : Post → Name × Nat
  | .appeared volume => (volume.service, volume.token)
  | .gone service token => (service, token)

variable {scan : Scan} {told : List Volume}

theorem mem_post {message : Post} {v : Volume} (other : (v.service, v.token) ≠ message.about) :
    v ∈ post scan told message ↔ v ∈ told := by
  unfold post
  split
  · cases message with
    | appeared volume =>
      have apart : v ≠ volume := by
        rintro rfl
        exact other rfl
      simp [tell, apart]
    | gone =>
      simp only [tell, mem_filter, and_iff_left_iff_imp]
      intro _
      simpa [Post.about, imp_iff_not_or] using other
  · exact Iff.rfl

variable {was : Nat → MbrPartition}

theorem diffSlot_other {now : Nat → MbrPartition} {v : Volume}
    (other : (v.service, v.token) ≠ (scan.service.take 31, makeToken scan.selector i)) :
    v ∈ diffSlot scan was now told i ↔ v ∈ told := by
  unfold diffSlot
  split
  · exact Iff.rfl
  split <;> split
  · rw [mem_post other, mem_post other]
  · exact mem_post other
  · exact mem_post other
  · exact Iff.rfl

theorem volumeOf_match {service : Name} {selector : Nat} {a b : MbrPartition}
    (same : entriesMatch a b = true) :
    volumeOf service selector i a = volumeOf service selector i b := by
  simp only [entriesMatch, Bool.and_eq_true, beq_iff_eq] at same
  simp only [volumeOf, same.1.2, same.2]

theorem diffSlot_holds {now : Nat → MbrPartition} (fits : scan.disk.Fits)
    (accepted : ∀ message ∈ slotPosts scan was now i, scan.accepts message = true)
    (holds : Holds told scan.disk i (was i)) :
    Holds (diffSlot scan was now told i) scan.disk i (now i) := by
  intro v ofService ofToken
  have before := holds v ofService ofToken
  have whole : scan.service.take 31 = scan.service := take_of_length_le fits.service
  have mine : v.service = scan.service.take 31 := ofService.trans whole.symm
  replace ofToken : v.token = makeToken scan.selector i := ofToken
  unfold diffSlot
  by_cases unchanged : (present (was i) && present (now i) && entriesMatch (was i) (now i)) = true
  · rw [if_pos unchanged]
    simp only [Bool.and_eq_true] at unchanged
    rw [before, volumeOf_match unchanged.2]
    simp [unchanged.1.1, unchanged.1.2]
  · rw [if_neg unchanged]
    rw [slotPosts, if_neg unchanged] at accepted
    dsimp only [Scan.disk] at before ⊢
    cases had : present (was i) with
    | true =>
      cases has : present (now i) <;>
        simp [had, has] at accepted <;> simp [post, accepted, tell, mine, ofToken]
    | false =>
      rw [had] at before
      cases has : present (now i) <;>
        simp [had, has] at accepted <;> simp [post, accepted, tell, before.mp.mt]

theorem diffSlots_hold (now : Nat → MbrPartition) (fits : scan.disk.Fits)
    (holds : Holds told scan.disk i (was i)) (count : Nat)
    (accepted : i < count → ∀ message ∈ slotPosts scan was now i, scan.accepts message = true) :
    Holds ((List.range count).foldl (diffSlot scan was now) told) scan.disk i
      (if i < count then now i else was i) := by
  induction count with
  | zero => exact holds
  | succ count ih =>
    replace ih := ih fun inside => accepted (Nat.lt_succ_of_lt inside)
    rw [range_succ, foldl_append]
    by_cases last : i = count
    · subst last
      rw [if_neg (lt_irrefl i)] at ih
      rw [if_pos (Nat.lt_succ_self i)]
      exact diffSlot_holds fits (accepted (Nat.lt_succ_self i)) ih
    have sameEntry : (if i < count + 1 then now i else was i) =
        if i < count then now i else was i := by
      simp only [show i < count + 1 ↔ i < count by omega]
    rw [sameEntry]
    intro v ofService ofToken
    rw [← ih v ofService ofToken]
    refine diffSlot_other fun equal => last ?_
    have tokens := (Prod.mk.inj equal).2
    rw [ofToken] at tokens
    exact (makeToken_inj fits.selector fits.selector tokens).2

/-! ### The table -/

/-- The entries that the library remembers of a disk. -/
def remembered (table : Table) (disk : Disk) : Nat → MbrPartition :=
  match table.find? (names disk.service disk.selector) with
  | some (some st) => st.entries
  | _ => fun _ => blank

/-- Every name in the table fits its field. -/
def Short (table : Table) : Prop :=
  ∀ st, some st ∈ table → st.service.length ≤ 31

variable {disk : Disk} {st : DiskState}

theorem names_iff (fits : disk.Fits) (short : st.service.length ≤ 31) :
    names disk.service disk.selector (some st) = true ↔ Disk.mk st.service st.selector = disk := by
  have left : (st.service ++ [0]).take 32 = st.service ++ [0] := take_of_length_le (by simp; omega)
  have right : (disk.service ++ [0]).take 32 = disk.service ++ [0] :=
    take_of_length_le (by have := fits.service; simp; omega)
  obtain ⟨_, _⟩ := disk
  simp [names, sameName, left, right, And.comm]

theorem Disk.Fits.short (fits : disk.Fits) (mine : Disk.mk st.service st.selector = disk) :
    st.service.length ≤ 31 := by
  subst mine
  exact fits.service

section

variable {Slot : Type} {p : Slot → Bool} {slots : List Slot}

theorem find?_set_other {old new : Slot} (at_ : slots[i]? = some old) (notOld : p old = false)
    (notNew : p new = false) : (slots.set i new).find? p = slots.find? p := by
  induction slots generalizing i with
  | nil => rfl
  | cons slot _ ih =>
    cases i with
    | zero =>
      cases (by simpa using at_ : slot = old)
      simp [notOld, notNew]
    | succ =>
      have rest := ih (by simpa using at_)
      simp [List.find?_cons, rest]

theorem find?_set_first {old : Slot} (new : Slot) (at_ : slots[i]? = some old)
    (first : ∀ j < i, ∀ slot, slots[j]? = some slot → p slot = false) (isNew : p new = true) :
    (slots.set i new).find? p = some new := by
  induction slots generalizing i with
  | nil => simp at at_
  | cons slot _ ih =>
    cases i with
    | zero => simp [isNew]
    | succ i =>
      have not : p slot = false := first 0 (Nat.succ_pos i) slot rfl
      have rest := ih (by simpa using at_)
        fun j inside later found => first (j + 1) (by omega) later (by simpa)
      simp [not, rest]

end

theorem stateGetOrAlloc_spec {table : Table} (fits : disk.Fits) (short : Short table) {slot : Nat}
    (got : stateGetOrAlloc table disk.service disk.selector = some (slot, st)) :
    Disk.mk st.service st.selector = disk ∧ st.entries = remembered table disk ∧
      ∃ old, table[slot]? = some old ∧ (old = none ∨ old = some st) ∧ ∀ j < slot,
        ∀ other, table[j]? = some other → names disk.service disk.selector other = false := by
  unfold stateGetOrAlloc at got
  split at got
  next i found =>
    obtain ⟨inside, isNamed, before⟩ := List.findIdx?_eq_some_iff_getElem.mp found
    have at_ := List.getElem?_eq_getElem inside
    have first : ∀ j < i, ∀ other, table[j]? = some other →
        names disk.service disk.selector other = false := by
      intro j earlier other seen
      obtain ⟨bound, rfl⟩ := List.getElem?_eq_some_iff.mp seen
      simpa using before j earlier
    cases filled : table[i] with
    | none =>
      rw [filled] at isNamed
      cases isNamed
    | some here =>
      rw [filled] at isNamed at_
      rw [at_] at got
      obtain ⟨rfl, rfl⟩ : i = slot ∧ here = st := by simpa using got
      have inTable := mem_of_getElem? at_
      refine ⟨(names_iff fits (short here inTable)).mp isNamed, ?_, some here, at_, .inr rfl, first⟩
      have same : table.find? (names disk.service disk.selector) = some (some here) :=
        List.find?_eq_some_iff_getElem.mpr ⟨isNamed, i, inside, filled, by simpa using before⟩
      simp only [remembered, same]
  next none' =>
    have unnamed := List.findIdx?_eq_none_iff.mp none'
    obtain ⟨i, found, equal⟩ := Option.map_eq_some_iff.mp got
    cases equal
    obtain ⟨inside, isFree, _⟩ := List.findIdx?_eq_some_iff_getElem.mp found
    refine ⟨?_, ?_, none, ?_, .inl rfl, ?_⟩
    · rw [take_of_length_le fits.service]
    · have absent : table.find? (names disk.service disk.selector) = none := by simpa using unnamed
      simp only [remembered, absent]
    · rw [List.getElem?_eq_getElem inside, Option.isNone_iff_eq_none.mp isFree]
    · intro j _ other seen
      exact unnamed other (mem_of_getElem? seen)

/-! ### Scans -/

/-- Hotplug knows of a disk what the library remembers. -/
structure InStep (s : State) (disk : Disk) : Prop where
  short : Short s.table
  holds : ∀ i < mbrMaxPrimary, Holds s.told disk i (remembered s.table disk i)

theorem scan_cases (s : State) (scan : Scan) :
    partitionScanAnnounce s scan = (false, s) ∨
    ∃ sector slot st, scan.sector0 = some sector ∧
      stateGetOrAlloc s.table scan.service scan.selector = some (slot, st) ∧
      partitionScanAnnounce s scan = (true,
          { table := s.table.set slot
              (some { st with entries := interesting (partitionMbrParse sector) })
            told := (List.range mbrMaxPrimary).foldl (diffSlot scan st.entries
              (interesting (partitionMbrParse sector))) s.told }) ∧
      postsMade s scan = (List.range mbrMaxPrimary).flatMap
        (slotPosts scan st.entries (interesting (partitionMbrParse sector))) := by
  unfold partitionScanAnnounce postsMade
  cases scan.hotplug with
  | false => exact .inl rfl
  | true =>
    cases scan.sector0 with
    | none => exact .inl rfl
    | some sector =>
      cases got : stateGetOrAlloc s.table scan.service scan.selector with
      | none => exact .inl rfl
      | some found => exact .inr ⟨sector, found.1, found.2, rfl, rfl, rfl, rfl⟩

theorem Short.set {table : Table} (short : Short table) (fits : disk.Fits) {slot : Nat}
    (mine : Disk.mk st.service st.selector = disk) : Short (table.set slot (some st)) := by
  intro other inside
  rcases mem_or_eq_of_mem_set inside with old | new
  · exact short other old
  cases new
  subst mine
  exact fits.service

theorem scan_inStep {s : State} (fits : scan.disk.Fits) (inStep : InStep s scan.disk)
    (accepted : ∀ message ∈ postsMade s scan, scan.accepts message = true) :
    InStep (partitionScanAnnounce s scan).2 scan.disk := by
  rcases scan_cases s scan with nothing | ⟨sector, slot, st, _, got, scanned, made⟩
  · rw [nothing]
    exact inStep
  obtain ⟨mine, was, old, at_, _, first⟩ := stateGetOrAlloc_spec fits inStep.short got
  have short := fits.short mine
  rw [scanned]
  refine ⟨inStep.short.set fits mine, fun i inside => ?_⟩
  have found := find?_set_first
    (some { st with entries := interesting (partitionMbrParse sector) }) at_ first
    ((names_iff fits short).mpr mine)
  have held := inStep.holds i inside
  rw [← was] at held
  have after := diffSlots_hold (interesting (partitionMbrParse sector)) fits held mbrMaxPrimary
    fun _ message posted => accepted message <| by
      rw [made]
      exact mem_flatMap.mpr ⟨i, mem_range.mpr inside, posted⟩
  rw [if_pos inside] at after
  simpa only [remembered, found] using after

theorem scan_other {s : State} (fits : disk.Fits) (fitsScan : scan.disk.Fits)
    (other : scan.disk ≠ disk) (inStep : InStep s disk) :
    InStep (partitionScanAnnounce s scan).2 disk := by
  rcases scan_cases s scan with nothing | ⟨sector, slot, st, _, got, scanned, _⟩
  · rw [nothing]
    exact inStep
  obtain ⟨mine, _, old, at_, which, _⟩ := stateGetOrAlloc_spec fitsScan inStep.short got
  have short := fitsScan.short mine
  have notMine (entries : Nat → MbrPartition) :
      names disk.service disk.selector (some { st with entries := entries }) = false :=
    Bool.eq_false_iff.mpr fun named => other (mine.symm.trans ((names_iff fits short).mp named))
  have notOld : names disk.service disk.selector old = false := by
    rcases which with rfl | rfl
    · rfl
    · exact notMine st.entries
  rw [scanned]
  refine ⟨inStep.short.set fitsScan mine, fun i inside v ofService ofToken => ?_⟩
  have kept := find?_set_other at_ notOld (notMine (interesting (partitionMbrParse sector)))
  have untouched : ∀ slots : List Nat, ∀ told, v ∈ slots.foldl (diffSlot scan st.entries
        (interesting (partitionMbrParse sector))) told ↔ v ∈ told := by
    intro slots
    induction slots with
    | nil => exact fun _ => Iff.rfl
    | cons _ _ ih =>
      intro told
      rw [foldl_cons, ih]
      refine diffSlot_other fun equal => other ?_
      obtain ⟨services, tokens⟩ := Prod.mk.inj equal
      have whole : scan.service.take 31 = scan.service := take_of_length_le fitsScan.service
      rw [ofService, whole] at services
      rw [ofToken] at tokens
      have selectors := (makeToken_inj fits.selector fitsScan.selector tokens).1
      obtain ⟨_, _⟩ := disk
      cases services
      cases selectors
      rfl
  rw [untouched]
  simpa only [remembered, kept] using inStep.holds i inside v ofService ofToken

theorem initial_inStep (disk : Disk) : InStep initial disk := by
  refine ⟨fun st inside => ?_, fun i _ v _ _ => ?_⟩
  · simp [initial] at inside
  · simp [remembered, present, blank, initial]

theorem run_inStep (fits : disk.Fits) (scans : List Scan) (fitAll : ∀ scan ∈ scans, scan.disk.Fits)
    (accepted : ∀ before scan, before ++ [scan] <+: scans → scan.disk = disk → ∀ message ∈ postsMade
      (run before) scan, scan.accepts message = true) : InStep (run scans) disk := by
  induction scans using List.reverseRecOn with
  | nil => exact initial_inStep disk
  | append_singleton scans scan ih =>
    have before := ih (fun other inside => fitAll other (mem_append_left _ inside))
      (fun earlier other ahead => accepted earlier other (ahead.trans (prefix_append ..)))
    have last : scan ∈ scans ++ [scan] := by simp
    rw [run, foldl_append]
    by_cases mine : scan.disk = disk
    · subst mine
      exact scan_inStep fits before (accepted scans scan prefix_rfl rfl)
    · exact scan_other fits (fitAll scan last) mine before

theorem mem_volumesIn {sector : Nat → UInt8} {v : Volume} :
    v ∈ volumesIn disk.service disk.selector sector ↔
      ∃ i < mbrMaxPrimary, present (interesting (partitionMbrParse sector) i) = true ∧
        v = volumeOf disk.service disk.selector i (interesting (partitionMbrParse sector) i) := by
  have nonempty (e : MbrPartition)
      (kind : (typeIsFat32 e.type || typeIsExfat e.type) = true) : e.type ≠ 0 := by
    intro zero
    simp [zero, typeIsFat32, typeIsExfat] at kind
  unfold volumesIn interesting present
  dsimp only
  generalize partitionMbrParse sector = table
  cases table.validSignature with
  | false => simp [blank]
  | true =>
    simp only [if_true, Bool.true_and, mem_filterMap, mem_range]
    refine exists_congr fun i => and_congr_right fun _ => ?_
    by_cases wanted : ((typeIsFat32 (table.entries i).type || typeIsExfat (table.entries i).type) &&
        (table.entries i).sectors != 0) = true
    · have parts := Bool.and_eq_true_iff.mp wanted
      have type := bne_iff_ne.mpr (nonempty _ parts.1)
      rw [if_pos wanted, if_pos wanted, type, parts.2]
      simp only [Option.some.injEq, Bool.and_self, true_and, eq_comm]
    · rw [if_neg wanted, if_neg wanted]
      simp [blank]

/-- In a run where the posts about a disk are accepted, hotplug knows after every
scan of the disk that returns true exactly the partitions of the MBR. -/
theorem announcements_in_step (disk : Disk) (scans : List Scan) (scan : Scan)
    (mine : scan.disk = disk) (fits : ∀ other ∈ scans ++ [scan], other.disk.Fits)
    (accepted : ∀ earlier other, earlier ++ [other] <+: scans ++ [scan] → other.disk = disk →
      ∀ message ∈ postsMade (run earlier) other, other.accepts message = true)
    (returned : (partitionScanAnnounce (run scans) scan).1 = true) :
    ∃ sector, scan.sector0 = some sector ∧ ∀ v : Volume, (v ∈ (run (scans ++ [scan])).told ∧
      v.Of disk) ↔ v ∈ volumesIn disk.service disk.selector sector := by
  have fitsScan : scan.disk.Fits := fits scan (by simp)
  have fitsDisk : disk.Fits := mine ▸ fitsScan
  have whole : disk.service.take 31 = disk.service := take_of_length_le fitsDisk.service
  have inStep := run_inStep fitsDisk (scans ++ [scan]) fits accepted
  have before := run_inStep fitsDisk scans
    (fun other inside => fits other (mem_append_left _ inside))
    (fun earlier other ahead => accepted earlier other (ahead.trans (prefix_append ..)))
  have last : run (scans ++ [scan]) = (partitionScanAnnounce (run scans) scan).2 := by
    rw [run, foldl_append]
    rfl
  rcases scan_cases (run scans) scan with nothing | ⟨sector, slot, st, read, got, scanned, _⟩
  · rw [nothing] at returned
    cases returned
  refine ⟨sector, read, fun v => ?_⟩
  subst mine
  obtain ⟨mine, _, _, at_, _, first⟩ := stateGetOrAlloc_spec fitsScan before.short got
  have found := find?_set_first
    (some { st with entries := interesting (partitionMbrParse sector) }) at_ first
    ((names_iff fitsScan (fitsScan.short mine)).mpr mine)
  have known : remembered (run (scans ++ [scan])).table scan.disk =
      interesting (partitionMbrParse sector) := by
    rw [last, scanned]
    simp only [remembered, found]
  rw [mem_volumesIn]
  constructor
  · rintro ⟨told, ofService, i, inside, ofToken⟩
    have held := (inStep.holds i inside v ofService ofToken).mp told
    rw [known] at held
    exact ⟨i, inside, held⟩
  · rintro ⟨i, inside, has, same⟩
    have ofService : v.service = scan.disk.service := by rw [same]; exact whole
    have ofToken : v.token = makeToken scan.disk.selector i := by rw [same]; rfl
    refine ⟨(inStep.holds i inside v ofService ofToken).mpr ?_, ofService, i, inside, ofToken⟩
    rw [known]
    exact ⟨has, same⟩

/-- An MBR with one FAT32 partition. -/
def sampleMbr : Nat → UInt8 :=
  putBytes 446 ([0, 0, 0, 0, 0x0C, 0, 0, 0] ++ leBytes 4 2048 ++ leBytes 4 8192)
    (putBytes 510 [0x55, 0xAA] fun _ => 0)

/-- A scan of the first ATA disk with this MBR. -/
def sampleScan (accepts : Post → Bool) : Scan :=
  ⟨[0x61, 0x74, 0x61], 0, true, some sampleMbr, accepts⟩

theorem announcements_in_step_twice : ∃ sector, (sampleScan fun _ => true).sector0 = some sector ∧
      ∀ v : Volume, (v ∈ (run ([sampleScan fun _ => true] ++ [sampleScan fun _ => true])).told ∧
          v.Of ⟨[0x61, 0x74, 0x61], 0⟩) ↔ v ∈ volumesIn [0x61, 0x74, 0x61] 0 sector :=
  announcements_in_step ⟨[0x61, 0x74, 0x61], 0⟩ [sampleScan fun _ => true]
    (sampleScan fun _ => true) rfl (by
      intro other inside
      simp only [cons_append, nil_append, mem_cons, not_mem_nil, or_false, or_self] at inside
      subst inside
      exact ⟨by decide, by decide⟩)
    (by
      intro earlier other ahead _ message _
      have inside := ahead.subset (mem_append_right earlier (mem_singleton_self other))
      simp only [cons_append, nil_append, mem_cons, not_mem_nil, or_false, or_self] at inside
      subst inside
      rfl)
    rfl

/-- A lost post: the scan returns true, hotplug knows nothing, and later scans
find nothing to tell. -/
theorem announcements_lost : (partitionScanAnnounce initial (sampleScan fun _ => false)).1 = true ∧
      (run [sampleScan fun _ => false, sampleScan fun _ => true]).told = [] ∧
      volumesIn [0x61, 0x74, 0x61] 0 sampleMbr = [⟨[0x61, 0x74, 0x61], 0, false, 2048⟩] := by
  refine ⟨?_, ?_, ?_⟩ <;> decide +kernel

end MainDob.Fs.Partition
