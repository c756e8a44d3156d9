/-
Purpose: The entries that hotplug finds for a device, best first: what the insertion
  sort makes of them, that the linear search finds the first of them, and which filters
  put an entry before another.
Main exports: Precedes, Ranked, driver_matching
-/
import Mathlib.Data.List.Basic
import Mathlib.Data.List.Induction
import Mathlib.Tactic.SplitIfs
import MainDob.Hotplug.Das

namespace MainDob.Hotplug.Das

open List

/-! ### The order of candidates -/

/-- A higher score first, and equal scores in load order. -/
def Before (a b : Cand) : Prop := b.score < a.score ∨ a.score = b.score ∧ a.idx < b.idx

theorem Before.asymm {a b : Cand} (first : Before a b) : ¬ Before b a := by
  unfold Before at *
  omega

section Sorting

variable (key : Cand)

theorem shift_spec (before rest : List Cand) (hole : Cand) : ∃ front back, before = front ++ back ∧
    (∀ c ∈ back, c.score < key.score) ∧ (∀ c, front.getLast? = some c → key.score ≤ c.score) ∧
      shift key before.length (before ++ hole :: rest) = front ++ key :: back ++ rest := by
  induction before using List.reverseRec generalizing hole rest with
  | nil => exact ⟨[], [], rfl, nofun, nofun, rfl⟩
  | append_singleton init c ih =>
    have here : (init ++ [c] ++ hole :: rest)[init.length]? = some c := by simp
    rw [length_append, length_singleton, shift, here]
    dsimp only
    split
    · rename_i lower
      have moved : (init ++ [c] ++ hole :: rest).set (init.length + 1) c =
          init ++ c :: (c :: rest) := by simp
      obtain ⟨front, back, same, less, last, result⟩ := ih (c :: rest) c
      refine ⟨front, back ++ [c], by rw [same, append_assoc], ?_, last, ?_⟩
      · intro d member
        rcases mem_append.mp member with there | there
        · exact less d there
        · rwa [mem_singleton.mp there]
      · rw [moved, result]
        simp
    · rename_i high
      refine ⟨init ++ [c], [], by simp, nofun, ?_, by simp⟩
      intro d last
      rw [List.getLast?_concat] at last
      cases last
      omega

theorem shift_sorted (rest : List Cand) {before : List Cand} (sorted : before.Pairwise Before)
    (later : ∀ c ∈ before, c.idx < key.idx) : ∃ after, shift key before.length (before ++
      key :: rest) = after ++ rest ∧ after.Pairwise Before ∧ after.Perm (key :: before) := by
  obtain ⟨front, back, rfl, less, last, result⟩ := shift_spec key before rest key
  refine ⟨front ++ key :: back, result, ?_, perm_middle⟩
  obtain ⟨frontSorted, backSorted, across⟩ := pairwise_append.mp sorted
  have high : ∀ c ∈ front, key.score ≤ c.score := by
    intro c member
    obtain ⟨init, d, rfl⟩ := eq_nil_or_concat' front |>.resolve_left (ne_nil_of_mem member)
    have bound := last d List.getLast?_concat
    rcases mem_append.mp member with there | there
    · have ordered := (pairwise_append.mp frontSorted).2.2 c there d (mem_singleton_self d)
      unfold Before at ordered
      omega
    · rwa [mem_singleton.mp there]
  refine pairwise_append.mpr ⟨frontSorted, pairwise_cons.mpr ⟨?_, backSorted⟩, ?_⟩
  · exact fun c member => .inl (less c member)
  intro c member d there
  rcases mem_cons.mp there with rfl | there
  · have bound := high c member
    have earlier := later c (mem_append_left _ member)
    unfold Before
    omega
  · exact across c member d there

theorem sortLoop_sorted {todo : List Cand} : ∀ {before : List Cand}, before.Pairwise Before →
    todo.Pairwise (fun a b => a.idx < b.idx) → (∀ c ∈ before, ∀ d ∈ todo, c.idx < d.idx) →
    (sortLoop todo.length before.length (before ++ todo)).Pairwise Before ∧
      (sortLoop todo.length before.length (before ++ todo)).Perm (before ++ todo) := by
  induction todo with
  | nil =>
    intro before sorted _ _
    rw [append_nil]
    exact ⟨sorted, .refl _⟩
  | cons key rest ih =>
    intro before sorted increasing later
    obtain ⟨first, increasing⟩ := pairwise_cons.mp increasing
    obtain ⟨after, moved, sorted', same⟩ := shift_sorted key rest sorted
      fun c member => later c member key mem_cons_self
    have length : before.length + 1 = after.length := by rw [same.length_eq, length_cons]
    have here : (before ++ key :: rest)[before.length]? = some key := by simp
    rw [length_cons, sortLoop, here]
    dsimp only
    rw [moved, length]
    obtain ⟨pairs, perm⟩ := ih sorted' increasing fun c member d there => by
      rcases mem_cons.mp (same.subset member) with rfl | old
      · exact first d there
      · exact later c old d (mem_cons_of_mem _ there)
    refine ⟨pairs, perm.trans ?_⟩
    exact (same.append_right rest).trans perm_middle.symm

end Sorting

/-! ### What is collected -/

variable (hw : Device)

variable {hw} in
theorem mem_collect {c : Cand} {es : List Entry} {i : Nat} : c ∈ collect hw es i ↔
    ∃ k e, es[k]? = some e ∧ c = ⟨i + k, dasEffectiveScore e hw⟩ ∧ 0 ≤ c.score := by
  induction es generalizing i with
  | nil => simp [collect]
  | cons e rest ih =>
    have tail : c ∈ collect hw rest (i + 1) ↔ ∃ k f, (e :: rest)[k + 1]? = some f ∧
        c = ⟨i + (k + 1), dasEffectiveScore f hw⟩ ∧ 0 ≤ c.score := by
      rw [ih]
      simp [Nat.add_assoc, Nat.add_comm 1]
    unfold collect
    constructor
    · intro member
      split at member
      · obtain ⟨k, f, there⟩ := tail.mp member
        exact ⟨k + 1, f, there⟩
      rename_i good
      rcases mem_cons.mp member with rfl | member
      · exact ⟨0, e, rfl, rfl, Int.not_lt.mp good⟩
      · obtain ⟨k, f, there⟩ := tail.mp member
        exact ⟨k + 1, f, there⟩
    · rintro ⟨k, f, at_, same, good⟩
      cases k with
      | zero =>
        cases at_
        subst same
        rw [if_neg (Int.not_lt.mpr good)]
        exact mem_cons_self
      | succ k =>
        have member := tail.mpr ⟨k, f, at_, same, good⟩
        split
        · exact member
        · exact mem_cons_of_mem _ member

theorem collect_increasing (es : List Entry) (i : Nat) :
    (collect hw es i).Pairwise fun a b => a.idx < b.idx := by
  induction es generalizing i with
  | nil => exact .nil
  | cons _ _ ih =>
    unfold collect
    split
    · exact ih (i + 1)
    refine pairwise_cons.mpr ⟨?_, ih (i + 1)⟩
    intro c member
    obtain ⟨k, f, _, rfl, _⟩ := mem_collect.mp member
    dsimp only
    omega

theorem length_collect (es : List Entry) (i : Nat) : (collect hw es i).length ≤ es.length := by
  induction es generalizing i with
  | nil => exact Nat.le_refl _
  | cons _ _ ih =>
    have shorter := ih (i + 1)
    unfold collect
    split <;> simp only [length_cons] <;> omega

theorem matchLoop_spec (es : List Entry) :
    ∀ (i : Nat) (bestIdx bestScore : Int), dasNoMatch ≤ bestScore →
    (∀ c ∈ collect hw es i, c.score ≤ bestScore) ∧ matchLoop hw es i bestIdx bestScore = bestIdx ∨
        ∃ best ∈ collect hw es i, matchLoop hw es i bestIdx bestScore = best.idx ∧
          bestScore < best.score ∧ ∀ c ∈ collect hw es i, c = best ∨ Before best c := by
  induction es with
  | nil => exact fun _ _ _ _ => .inl ⟨nofun, rfl⟩
  | cons e rest ih =>
    intro i bestIdx bestScore floor
    have members : ∀ c ∈ collect hw (e :: rest) i,
        c = ⟨i, dasEffectiveScore e hw⟩ ∨ c ∈ collect hw rest (i + 1) := by
      intro c member
      unfold collect at member
      split at member
      · exact .inr member
      · exact mem_cons.mp member
    have kept : ∀ c ∈ collect hw rest (i + 1), c ∈ collect hw (e :: rest) i := by
      intro c member
      rw [collect]
      split
      · exact member
      · exact mem_cons_of_mem _ member
    unfold matchLoop
    split
    · rename_i better
      have listed : (⟨i, dasEffectiveScore e hw⟩ : Cand) ∈ collect hw (e :: rest) i := by
        rw [collect, if_neg (by unfold dasNoMatch at floor; omega)]
        exact mem_cons_self
      refine .inr ?_
      rcases ih (i + 1) i (dasEffectiveScore e hw) (by omega) with
        ⟨lower, result⟩ | ⟨best, member, result, higher, first⟩
      · refine ⟨_, listed, result, better, fun c there => (members c there).imp id fun there => ?_⟩
        have score := lower c there
        obtain ⟨k, _, _, rfl, _⟩ := mem_collect.mp there
        unfold Before
        dsimp only at score ⊢
        omega
      · refine ⟨best, kept best member, result, by omega, fun c there => ?_⟩
        rcases members c there with rfl | there
        · exact .inr (.inl higher)
        · exact first c there
    · rename_i worse
      rcases ih (i + 1) bestIdx bestScore floor with
        ⟨lower, result⟩ | ⟨best, member, result, higher, first⟩
      · refine .inl ⟨fun c there => ?_, result⟩
        rcases members c there with rfl | there
        · exact Int.not_lt.mp worse
        · exact lower c there
      · refine .inr ⟨best, kept best member, result, higher, fun c there => ?_⟩
        rcases members c there with rfl | there
        · exact .inr (.inl (by dsimp only; omega))
        · exact first c there

variable {hw}

/-! ### Filters -/

/-- What an entry can ask of a device; the device is part of the vendor. -/
inductive Filter where
  | ioBase
  | vendor
  | classCode
  | subclass
  | progIf
  | subsystemVendor
  | subsystemDevice
  | revision
  | volumeFs

/-- Does the entry set the filter? -/
def Entry.sets (e : Entry) : Filter → Bool
  | .ioBase => e.ioBase != 0
  | .vendor => e.vendorId != 0
  | .classCode => e.classCode != 0
  | .subclass => e.subclass != 0
  | .progIf => e.progIf != 0xFF
  | .subsystemVendor => e.subsystemVendor != 0
  | .subsystemDevice => e.subsystemDevice != 0
  | .revision => decide (0 ≤ e.revision.toInt)
  | .volumeFs => e.volumeFs != 0

/-- Does the score of an entry count the filter?  On the legacy buses it counts none. -/
def Entry.counts (e : Entry) : Filter → Prop
  | .ioBase => False
  | .vendor => e.busType = busTypePci
  | .classCode | .subclass =>
    e.busType = busTypeSubdevice ∨ e.busType = busTypePci ∧ e.vendorId = 0
  | .progIf => e.busType = busTypePci
  | .subsystemVendor | .revision => e.busType = busTypePci ∧ e.vendorId ≠ 0
  | .subsystemDevice => e.busType = busTypePci ∧ e.vendorId ≠ 0 ∧ e.subsystemVendor ≠ 0
  | .volumeFs => e.busType = busTypeSubdevice

/-- The first entry sets what the second sets, and more that counts. -/
def MoreSpecific (e f : Entry) : Prop :=
  (∀ x, f.sets x = true → e.sets x = true) ∧ ∃ x, e.counts x ∧ e.sets x = true ∧ f.sets x = false

theorem points_mono {a b : Bool} {n : Int} (keeps : b = true → a = true) (positive : 0 ≤ n) :
    points b n ≤ points a n := by
  cases a <;> cases b <;> simp_all [points]

theorem points_more {a b : Bool} {n : Int} (has : a = true) (lacks : b = false) :
    points a n = points b n + n := by
  simp [points, has, lacks]

theorem points_bounds {a : Bool} {n : Int} (positive : 0 ≤ n) :
    0 ≤ points a n ∧ points a n ≤ n := by
  cases a <;> simp [points, positive]

/-- The score of an entry for a device that it matches. -/
def Entry.specificity (e : Entry) : Int :=
  if e.busType = busTypePci then
    if e.vendorId ≠ 0 then
      1000 + points (e.sets .progIf) 1 + points (e.sets .subsystemVendor) 200 + points
        (e.sets .subsystemVendor && e.sets .subsystemDevice) 100 + points (e.sets .revision) 5
    else
      points (e.sets .classCode) 10 + points (e.sets .subclass) 10 + points (e.sets .progIf) 50
  else if e.busType = busTypeSubdevice then
    points (e.sets .classCode) 10 + points (e.sets .subclass) 10 + points (e.sets .volumeFs) 30
  else 100

theorem scoreVendor_eq {e : Entry} (good : 0 ≤ scoreVendor e hw) : scoreVendor e hw =
    1000 + points (e.sets .progIf) 1 + points (e.sets .subsystemVendor) 200 + points
      (e.sets .subsystemVendor && e.sets .subsystemDevice) 100 + points (e.sets .revision) 5 := by
  unfold scoreVendor dasNoMatch at *
  split_ifs at * <;> first | rfl | omega

theorem scoreClass_eq {e : Entry} (good : 0 ≤ scoreClass e hw) : scoreClass e hw =
    points (e.sets .classCode) 10 + points (e.sets .subclass) 10 + points (e.sets .progIf) 50 := by
  unfold scoreClass dasNoMatch at *
  split_ifs at * <;> first | rfl | omega

theorem scoreSubdevice_eq {e : Entry} (good : 0 ≤ scoreSubdevice e hw) : scoreSubdevice e hw =
    points (e.sets .classCode) 10 + points (e.sets .subclass) 10 +
      points (e.sets .volumeFs) 30 := by
  unfold scoreSubdevice dasNoMatch at *
  split_ifs at * <;> first | rfl | omega

theorem dasScore_eq {e : Entry} (good : 0 ≤ dasScore e hw) :
    e.busType = hw.busType ∧ dasScore e hw = e.specificity := by
  unfold dasScore at *
  split at good
  · cases good
  split at good
  · cases good
  rename_i unused bus
  rw [if_neg unused, if_neg bus]
  have bus' : e.busType = hw.busType := Decidable.not_not.mp bus
  refine ⟨bus', ?_⟩
  unfold Entry.specificity
  rw [bus']
  by_cases fdc : hw.busType = busTypeLegacyFdc
  · rw [if_pos fdc] at good ⊢
    split at good
    · rename_i port
      rw [if_pos port, fdc]
      rfl
    · cases good
  rw [if_neg fdc] at good ⊢
  by_cases ide : hw.busType = busTypeLegacyIdeAtapi
  · rw [if_pos ide] at good ⊢
    split at good
    · rename_i port
      rw [if_pos port, ide]
      rfl
    · cases good
  rw [if_neg ide] at good ⊢
  by_cases subdevice : hw.busType = busTypeSubdevice
  · rw [if_pos subdevice] at good ⊢
    rw [if_neg (by rw [subdevice]; decide), if_pos subdevice]
    exact scoreSubdevice_eq good
  rw [if_neg subdevice] at good ⊢
  by_cases pci : hw.busType = busTypePci
  · rw [if_pos pci] at good ⊢
    rw [if_pos pci]
    split at good
    · rename_i vendor
      rw [if_pos vendor, if_pos vendor]
      exact scoreVendor_eq good
    · rename_i vendor
      rw [if_neg vendor, if_neg vendor]
      exact scoreClass_eq good
  · rw [if_neg pci] at good
    cases good

theorem specificity_lt {e f : Entry} (bus : f.busType = e.busType) (more : MoreSpecific e f) :
    f.specificity < e.specificity := by
  obtain ⟨sets, x, counts, has, lacks⟩ := more
  have progIf := points_mono (n := 1) (sets .progIf) (by decide)
  have progIf' := points_mono (n := 50) (sets .progIf) (by decide)
  have board := points_mono (n := 200) (sets .subsystemVendor) (by decide)
  have both := points_mono (a := e.sets .subsystemVendor && e.sets .subsystemDevice) (n := 100)
    (fun set => by
      rw [Bool.and_eq_true] at set ⊢
      exact ⟨sets _ set.1, sets _ set.2⟩) (by decide)
  have revision := points_mono (n := 5) (sets .revision) (by decide)
  have classCode := points_mono (n := 10) (sets .classCode) (by decide)
  have subclass := points_mono (n := 10) (sets .subclass) (by decide)
  have volumeFs := points_mono (n := 30) (sets .volumeFs) (by decide)
  have vendor := sets .vendor
  unfold Entry.specificity
  rw [bus]
  by_cases pci : e.busType = busTypePci
  · rw [if_pos pci, if_pos pci]
    by_cases exact_ : e.vendorId = 0
    · have none : f.vendorId = 0 := by
        by_contra other
        exact absurd (vendor (bne_iff_ne.mpr other)) (by simp [Entry.sets, exact_])
      rw [if_neg (not_not.mpr none), if_neg (not_not.mpr exact_)]
      cases x with
      | classCode | subclass =>
        have extra := points_more (n := 10) has lacks
        omega
      | progIf =>
        have extra := points_more (n := 50) has lacks
        omega
      | _ => simp_all [Entry.counts, Entry.sets, busTypePci, busTypeSubdevice]
    rw [if_pos exact_]
    by_cases none : f.vendorId = 0
    · rw [if_neg (not_not.mpr none)]
      have low := points_bounds (a := f.sets .classCode) (n := 10) (by decide)
      have low' := points_bounds (a := f.sets .subclass) (n := 10) (by decide)
      have low'' := points_bounds (a := f.sets .progIf) (n := 50) (by decide)
      have e₁ := points_bounds (a := e.sets .progIf) (n := 1) (by decide)
      have e₂ := points_bounds (a := e.sets .subsystemVendor) (n := 200) (by decide)
      have e₃ := points_bounds (a := e.sets .subsystemVendor && e.sets .subsystemDevice)
        (n := 100) (by decide)
      have e₄ := points_bounds (a := e.sets .revision) (n := 5) (by decide)
      omega
    rw [if_pos none]
    cases x with
    | progIf =>
      have extra := points_more (n := 1) has lacks
      omega
    | subsystemVendor =>
      have extra := points_more (n := 200) has lacks
      omega
    | subsystemDevice =>
      have extra := points_more (a := e.sets .subsystemVendor && e.sets .subsystemDevice)
        (b := f.sets .subsystemVendor && f.sets .subsystemDevice) (n := 100)
        (by rw [has, Bool.and_true]; exact bne_iff_ne.mpr counts.2.2)
        (by rw [lacks, Bool.and_false])
      omega
    | revision =>
      have extra := points_more (n := 5) has lacks
      omega
    | _ => simp_all [Entry.counts, Entry.sets, busTypePci, busTypeSubdevice]
  · rw [if_neg pci, if_neg pci]
    cases x with
    | classCode | subclass =>
      have subdevice := counts.resolve_right fun both => pci both.1
      rw [if_pos subdevice, if_pos subdevice]
      have extra := points_more (n := 10) has lacks
      omega
    | volumeFs =>
      have subdevice : e.busType = busTypeSubdevice := counts
      rw [if_pos subdevice, if_pos subdevice]
      have extra := points_more (n := 30) has lacks
      omega
    | _ => simp_all [Entry.counts]

theorem more_points {e f : Entry} (good : 0 ≤ dasScore e hw) (good' : 0 ≤ dasScore f hw)
    (more : MoreSpecific e f) : dasScore f hw < dasScore e hw := by
  obtain ⟨bus, same⟩ := dasScore_eq good
  obtain ⟨bus', same'⟩ := dasScore_eq good'
  rw [same, same']
  exact specificity_lt (bus'.trans bus.symm) more

theorem dasEffectiveScore_eq {e : Entry} (good : 0 ≤ dasScore e hw)
    (unranked : e.rank.toInt < 0) : dasEffectiveScore e hw = dasScore e hw := by
  unfold dasEffectiveScore
  rw [if_neg (Int.not_lt.mpr good), if_neg (Int.not_le.mpr unranked)]

/-! ### The matches of a device -/

/-- The entries at two indices, the first of which comes before the second. -/
def Precedes (db : Database) (hw : Device) (i j : Nat) : Prop :=
  ∃ e f, db.entries[i]? = some e ∧ db.entries[j]? = some f ∧
    Before ⟨i, dasEffectiveScore e hw⟩ ⟨j, dasEffectiveScore f hw⟩

/-- The indices are those of the entries with an effective score, best first. -/
structure Ranked (db : Database) (hw : Device) (ranked : List Nat) : Prop where
  listed : ∀ i, i ∈ ranked ↔ ∃ e, db.entries[i]? = some e ∧ 0 ≤ dasEffectiveScore e hw
  ordered : ranked.Pairwise (Precedes db hw)

/-- The list of all matches is ranked, the search finds the first of it, and a more
specific entry comes before a less specific one. -/
theorem driver_matching (db : Database) (hw : Device) :
    ∃ ranked, Ranked db hw ranked ∧ (∀ max : Int, dasMatchAll db hw max = ranked.take max.toNat) ∧
    dasMatch db hw = (match ranked.head? with | some i => i | none => dasNoMatch) ∧
    ∀ i j e f, db.entries[i]? = some e →
    db.entries[j]? = some f → 0 ≤ dasScore e hw → 0 ≤ dasScore f hw → e.rank.toInt < 0 →
      f.rank.toInt < 0 → MoreSpecific e f → i ∈ ranked ∧ j ∈ ranked ∧ Precedes db hw i j := by
  have whole : (collect hw db.entries 0).take dasMaxEntries = collect hw db.entries 0 :=
    take_of_length_le (Nat.le_trans (length_collect hw db.entries 0) db.count_le)
  obtain ⟨sorted, perm⟩ : (sortLoop ((collect hw db.entries 0).length - 1) 1
        (collect hw db.entries 0)).Pairwise Before ∧
      (sortLoop ((collect hw db.entries 0).length - 1) 1
        (collect hw db.entries 0)).Perm (collect hw db.entries 0) := by
    have increasing := collect_increasing hw db.entries 0
    cases all : collect hw db.entries 0 with
    | nil => exact ⟨.nil, .refl _⟩
    | cons first =>
      rw [all] at increasing
      obtain ⟨later, increasing⟩ := pairwise_cons.mp increasing
      have alone : [first].Pairwise Before := pairwise_singleton ..
      exact sortLoop_sorted alone increasing
        fun c member d there => mem_singleton.mp member ▸ later d there
  have found := matchLoop_spec hw db.entries 0 dasNoMatch dasNoMatch (Int.le_refl _)
  have listed : ∀ c, c ∈ collect hw db.entries 0 ↔ ∃ e, db.entries[c.idx]? = some e ∧
      c.score = dasEffectiveScore e hw ∧ 0 ≤ c.score := by
    intro c
    rw [mem_collect]
    constructor
    · rintro ⟨_, e, at_, rfl, good⟩
      exact ⟨e, by rwa [Nat.zero_add], rfl, good⟩
    · rintro ⟨e, at_, same, good⟩
      exact ⟨c.idx, e, at_, by rw [Nat.zero_add, ← same], good⟩
  have precedes : ∀ c ∈ collect hw db.entries 0, ∀ d ∈ collect hw db.entries 0,
      Before c d → Precedes db hw c.idx d.idx := by
    intro c member d there before
    obtain ⟨e, at_, same, _⟩ := (listed c).mp member
    obtain ⟨f, at', same', _⟩ := (listed d).mp there
    exact ⟨e, f, at_, at', by rwa [← same, ← same']⟩
  generalize sorts : sortLoop ((collect hw db.entries 0).length - 1) 1
    (collect hw db.entries 0) = result at sorted perm
  have ranked : Ranked db hw (result.map (·.idx)) := by
    refine ⟨fun i => ?_, pairwise_map.mpr ?_⟩
    · constructor
      · intro member
        obtain ⟨c, there, rfl⟩ := mem_map.mp member
        obtain ⟨e, at_, same, good⟩ := (listed c).mp (perm.subset there)
        exact ⟨e, at_, same ▸ good⟩
      · rintro ⟨e, at_, good⟩
        have member := (listed ⟨i, dasEffectiveScore e hw⟩).mpr ⟨e, at_, rfl, good⟩
        exact mem_map.mpr ⟨_, perm.symm.subset member, rfl⟩
    · exact sorted.imp_of_mem fun member there before =>
        precedes _ (perm.subset member) _ (perm.subset there) before
  refine ⟨_, ranked, ?_, ?_, ?_⟩
  · intro max
    unfold dasMatchAll
    split
    · rename_i none
      rw [Int.toNat_of_nonpos none, take_zero]
    · dsimp only
      rw [whole, sorts, map_take]
  · unfold dasMatch
    cases result with
    | nil =>
      rw [nil_perm.mp perm] at found
      rcases found with ⟨_, result⟩ | ⟨best, member, _⟩
      · exact result
      · cases member
    | cons head =>
      have headAt := perm.subset mem_cons_self
      rcases found with ⟨lower, _⟩ | ⟨best, member, result, _, first⟩
      · obtain ⟨_, _, _, good⟩ := (listed head).mp headAt
        have low := lower head headAt
        unfold dasNoMatch at low
        omega
      · rw [result]
        show (best.idx : Int) = head.idx
        -- both come before all others
        rcases first head headAt with rfl | before
        · rfl
        rcases mem_cons.mp (perm.symm.subset member) with rfl | there
        · rfl
        · exact absurd ((pairwise_cons.mp sorted).1 best there) before.asymm
  · intro i j e f at_ at' good good' unranked unranked' more
    have higher := more_points good good' more
    rw [← dasEffectiveScore_eq good unranked, ← dasEffectiveScore_eq good' unranked'] at higher
    refine ⟨(ranked.listed i).mpr ⟨e, at_, ?_⟩, (ranked.listed j).mpr ⟨f, at', ?_⟩,
      e, f, at_, at', .inl higher⟩
    · rwa [dasEffectiveScore_eq good unranked]
    · rwa [dasEffectiveScore_eq good' unranked']

/-- A database for a CD-ROM drive: any channel, and the second one only. -/
def channels : Database :=
  ⟨[{ busType := busTypeLegacyIdeAtapi }, { busType := busTypeLegacyIdeAtapi, ioBase := 0x170 }],
    by decide⟩

/-- The drive on the second channel. -/
def secondChannel : Device := { busType := busTypeLegacyIdeAtapi, ioBase := 0x170 }

/-- The entry for the second channel sets one more filter, and it comes second.  And an
entry whose rank is above 65535 matches, and it is not listed. -/
theorem driver_matching_fails :
    dasMatchAll channels secondChannel 8 = [0, 1] ∧ dasMatch channels secondChannel = 0 ∧
      (∃ e f, channels.entries[0]? = some f ∧ channels.entries[1]? = some e ∧
        (∀ x, f.sets x = true → e.sets x = true) ∧ e.sets .ioBase = true ∧
        f.sets .ioBase = false) ∧
      dasScore { busType := busTypeLegacyFdc, ioBase := 0x3F0, rank := 70000 }
        { busType := busTypeLegacyFdc, ioBase := 0x3F0 } = 100 ∧
      dasMatchAll ⟨[{ busType := busTypeLegacyFdc, ioBase := 0x3F0, rank := 70000 }], by decide⟩
        { busType := busTypeLegacyFdc, ioBase := 0x3F0 } 8 = [] := by
  refine ⟨by decide, by decide, ⟨_, _, rfl, rfl, ?_, rfl, rfl⟩, by decide, by decide⟩
  intro x
  cases x <;> decide

end MainDob.Hotplug.Das
