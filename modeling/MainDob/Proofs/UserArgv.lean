/-
Purpose: The arguments a program finds: for every blob that passes the test of
  the system call, the frame is refused when it does not fit its page, and
  otherwise points to the strings of the blob in order.
Trusted boundary: none beyond MainDob.Kernel.UserArgv
Main exports: cStrings_split, skipString_spec, argv_frame
-/
import MainDob.Kernel.UserArgv
import Mathlib.Tactic.Common

namespace MainDob.Kernel.UserArgv

open Lib.Mem
open List

/-! ### The strings of a pool -/

/-- The strings of a pool with their NULs, one after the other. -/
def joined (strings : List (List UInt8)) : List UInt8 :=
  strings.flatMap (· ++ [0])

theorem cStrings_length (pool : List UInt8) : (cStrings pool).length = countNuls pool := by
  induction pool with
  | nil => rfl
  | cons _ rest ih =>
    rw [cStrings, countNuls]
    split
    · rw [length_cons, ih]
    · rw [← ih]
      cases cStrings rest <;> rfl

theorem cStrings_split (pool : List UInt8) : (∃ tail, pool = joined (cStrings pool) ++ tail) ∧
      ∀ string ∈ cStrings pool, (0 : UInt8) ∉ string := by
  induction pool with
  | nil => exact ⟨⟨[], rfl⟩, fun string held => nomatch held⟩
  | cons byte rest ih =>
    obtain ⟨⟨tail, same⟩, clean⟩ := ih
    rw [cStrings]
    split
    · rename_i nul
      refine ⟨⟨tail, ?_⟩, fun string held => ?_⟩
      · simp only [joined, flatMap_cons, nil_append, nul] at same ⊢
        exact congrArg _ same
      · rcases mem_cons.mp held with rfl | later
        · exact not_mem_nil
        · exact clean string later
    · rename_i other
      cases found : cStrings rest with
      | nil => exact ⟨⟨byte :: rest, rfl⟩, fun string held => nomatch held⟩
      | cons string =>
        rw [found] at same clean
        refine ⟨⟨tail, ?_⟩, fun other_ held => ?_⟩
        · simp only [joined, flatMap_cons, cons_append] at same ⊢
          exact congrArg _ same
        · rcases mem_cons.mp held with rfl | later
          · rw [mem_cons, not_or]
            exact ⟨fun nul => other nul.symm, clean string (mem_cons_self ..)⟩
          · exact clean other_ (mem_cons_of_mem _ later)

/-! ### The pointers -/

section Emit

variable {memory : Memory} {start bytes : Nat}

theorem skipString_spec (string : List UInt8) : ∀ (left offset : Nat),
    (0 : UInt8) ∉ string → readBytes memory (start + offset) (string ++ [0]).length = string ++
      [0] → offset + string.length < bytes → string.length < left →
      skipString memory start bytes left offset = offset + string.length := by
  induction string with
  | nil =>
    intro left offset _ held inside room
    cases left with
    | zero => exact absurd room (Nat.not_lt_zero _)
    | succ =>
      have nul : memory (start + offset) = 0 := by simpa [readBytes] using held
      rw [skipString, if_neg fun goes => goes.2 nul]
      rfl
  | cons _ _ ih =>
    intro left offset clean held inside room
    cases left with
    | zero => exact absurd room (Nat.not_lt_zero _)
    | succ left =>
      rw [cons_append, length_cons, readBytes_succ, List.cons.injEq] at held
      obtain ⟨first, rest⟩ := held
      rw [mem_cons, not_or] at clean
      rw [length_cons] at inside room
      have goes : offset < bytes ∧ memory (start + offset) ≠ 0 :=
        ⟨by omega, fun nul => clean.1 (nul.symm.trans first)⟩
      rw [skipString, if_pos goes, ih left _ clean.2
        (by rwa [← add_assoc]) (by omega) (by omega), length_cons]
      omega

theorem emitPointers_spec (strings : List (List UInt8)) (tail : List UInt8)
    (inWord : start + bytes < 2 ^ 32) :
    ∀ (slot offset : Nat) {memory : Memory}, (∀ string ∈ strings, (0 : UInt8) ∉ string) →
      readBytes memory (start + offset) (joined strings ++ tail).length = joined strings ++ tail →
      offset + (joined strings ++ tail).length = bytes → slot + 4 * (strings.length + 1) ≤ start →
      ∃ memory', emitPointers start bytes strings.length slot offset memory = (true, memory') ∧
        (∀ a, a < slot ∨ slot + 4 * (strings.length + 1) ≤ a → memory' a = memory a) ∧
        (∀ i string, strings[i]? = some string → readBytes memory' (readWord memory' (slot + 4 * i))
            (string.length + 1) = string ++ [0]) ∧
        readWord memory' (slot + 4 * strings.length) = 0 := by
  induction strings with
  | nil =>
    intro slot offset memory _ _ _ room
    refine ⟨writeWord memory slot 0, rfl, fun a outside => ?_, ?_, ?_⟩
    · refine writeBytes_outside memory ?_
      simpa [wordBytes] using outside
    · rintro _ _ ⟨⟩
    · exact readWord_writeWord memory slot (by decide)
  | cons string strings ih =>
    intro slot offset memory clean held length room
    simp only [joined, flatMap_cons, append_assoc] at held length
    rw [← append_assoc] at held length
    change offset + ((string ++ [0]) ++ (joined strings ++ tail)).length = bytes at length
    rw [length_cons] at room ⊢
    -- the pointer is written below the strings
    have below : Apart (start + offset) ((string ++ [0]) ++ (joined strings ++ tail)).length slot
        (wordBytes (start + offset)).length := by
      right
      simp only [wordBytes, length_cons, length_nil]
      omega
    have standing : readBytes (writeWord memory slot (start + offset))
        (start + offset) _ = _ := (readBytes_apart memory below).trans held
    obtain ⟨here, behind⟩ := readBytes_append.mp standing
    simp only [length_append, length_singleton] at length
    have skipped : skipString (writeWord memory slot (start + offset)) start
        bytes (bytes - offset) offset = offset + string.length :=
      skipString_spec string _ _ (clean string (mem_cons_self ..)) here (by omega) (by omega)
    rw [length_append, length_singleton, ← add_assoc, add_assoc start] at behind
    obtain ⟨memory', emitted, kept, pointed, last⟩ := ih (slot + 4) (offset + string.length + 1)
      (fun other held => clean other (mem_cons_of_mem _ held)) behind
      (by rw [length_append]; omega) (by omega)
    refine ⟨memory', ?_, fun a outside => ?_, fun i other found => ?_, ?_⟩
    · rw [emitPointers]
      rw [skipped, if_neg (by omega)]
      exact emitted
    · rw [kept a (by omega)]
      refine writeBytes_outside memory ?_
      simp only [wordBytes, length_cons, length_nil]
      omega
    · cases i with
      | zero =>
        cases found
        have pointer : readWord memory' slot = start + offset := by
          refine Eq.trans ?_ (readWord_writeWord memory slot (by omega))
          unfold readWord
          rw [kept slot (by omega), kept (slot + 1) (by omega),
            kept (slot + 2) (by omega), kept (slot + 3) (by omega)]
        rw [mul_zero, add_zero, pointer]
        rw [length_append, length_singleton] at here
        refine Eq.trans ?_ here
        refine map_congr_left fun j inside => kept _ ?_
        omega
      | succ i =>
        have later := pointed i other found
        rwa [show slot + 4 * (i + 1) = slot + 4 + 4 * i by omega]
    · rwa [show slot + 4 * (strings.length + 1) = slot + 4 + 4 * strings.length by omega]

end Emit

/-! ### The frame -/

/-- The strings the frame holds: a pool without a NUL is dropped. -/
def kept (argc : Nat) (pool : List UInt8) : List UInt8 :=
  if argc = 0 then [] else pool

theorem countNuls_kept {argc : Nat} {pool : List UInt8}
    (count : countNuls pool = argc) : countNuls (kept argc pool) = argc := by
  unfold kept
  split
  · rename_i none
    exact none.symm
  · exact count

theorem validateArgv_spec {argc size : Nat} {blob pool : List UInt8}
    (accepted : validateArgv argc size blob = some pool) :
    countNuls pool = argc ∧ pool.length ≤ 4088 := by
  unfold validateArgv at accepted
  split at accepted
  · exact nomatch accepted
  rename_i sizes
  split at accepted
  · exact nomatch accepted
  rename_i counted
  cases accepted
  refine ⟨not_not.mp counted, ?_⟩
  rw [length_drop]
  unfold userArgvMaxBlobBytes at sizes
  omega

theorem footprintFits_iff (argc : Nat) {pool : List UInt8} (short : pool.length ≤ 4088) :
    footprintFits argc (kept argc pool).length = true ↔ Fits argc pool.length := by
  have length : (kept argc pool).length = if argc = 0 then 0 else pool.length := by
    unfold kept
    split <;> rfl
  have bound : (if argc = 0 then 0 else pool.length) ≤ 4088 := by
    split
    · omega
    · exact short
  unfold footprintFits Fits userArgvMaxBlobBytes wordSize
  rw [length]
  generalize (if argc = 0 then 0 else pool.length) = bytes at bound ⊢
  split <;> simp <;> omega

theorem userArgvSetup_fits (memory : Memory) {argc : Nat} {pool : List UInt8}
    (count : countNuls pool = argc) (fits : footprintFits argc (kept argc pool).length = true)
    (short : pool.length ≤ 4088) : ∃ esp memory', userArgvSetup memory userStackTop argc pool =
        (esp, memory') ∧ userStackTop - 4096 ≤ esp ∧ ArgvFrame memory argc pool esp memory' := by
  obtain ⟨few, room⟩ := (footprintFits_iff argc short).mp fits
  have length : (if argc = 0 then 0 else pool.length) = (kept argc pool).length := by
    unfold kept
    split <;> rfl
  rw [length] at room
  have counted := countNuls_kept count
  have same : ∀ i < argc, (cStrings (kept argc pool))[i]? = (cStrings pool)[i]? := by
    intro i inside
    rw [kept, if_neg (by omega)]
  rw [userArgvSetup]
  dsimp only
  rw [show (if argc = 0 then [] else pool) = kept argc pool from rfl, fits, if_neg Bool.noConfusion]
  generalize kept argc pool = strings at room counted same ⊢
  unfold userArgvMaxBlobBytes at room
  -- where the parts of the frame lie
  obtain ⟨start, startIs⟩ : ∃ start, start = userStackTop - strings.length := ⟨_, rfl⟩
  obtain ⟨slot, slotIs⟩ : ∃ slot, slot = start / 4 * 4 - (argc + 1) * 4 := ⟨_, rfl⟩
  unfold userStackTop at startIs
  have startAt : (userStackTop + wordSize - strings.length) % wordSize = start := by
    unfold userStackTop wordSize
    omega
  have slotAt : (start / 4 * 4 + wordSize - (argc + 1) * 4) % wordSize = slot := by
    unfold wordSize
    omega
  have espAt : (slot + wordSize - 4) % wordSize = slot - 4 := by
    unfold wordSize
    omega
  rw [startAt, slotAt, espAt, if_neg (by
    unfold userStackTop userStackPages
    omega)]
  obtain ⟨⟨tail, split⟩, clean⟩ := cStrings_split strings
  have written : readBytes (writeBytes (writeWord memory (slot - 4) argc) start strings) (start + 0)
      (joined (cStrings strings) ++ tail).length = joined (cStrings strings) ++ tail := by
    rw [← split]
    exact readBytes_writeBytes _ _ _
  have inWord : start + strings.length < 2 ^ 32 := by omega
  obtain ⟨memory', emitted, outside, pointed, last⟩ := emitPointers_spec
    (cStrings strings) tail inWord slot 0 clean written
    (by rw [zero_add, ← split]) (by rw [cStrings_length, counted]; omega)
  rw [cStrings_length, counted] at emitted outside last
  rw [emitted]
  refine ⟨slot - 4, memory', rfl, ?_, ?_, ?_, ?_, ?_⟩
  · unfold userStackTop
    omega
  · have head : ∀ j < 4, memory' (slot - 4 + j) =
        writeWord memory (slot - 4) argc (slot - 4 + j) := fun j inside =>
      (outside _ (by omega)).trans (writeBytes_outside _ (by omega))
    refine Eq.trans ?_ (readWord_writeWord memory (slot - 4) (by omega))
    unfold readWord
    rw [head 1 (by omega), head 2 (by omega), head 3 (by omega)]
    rw [show memory' (slot - 4) = _ from head 0 (by omega)]
    rfl
  · intro i inside
    obtain ⟨string, found⟩ : ∃ string, (cStrings strings)[i]? = some string :=
      ⟨_, List.getElem?_eq_getElem (by rw [cStrings_length, counted]; exact inside)⟩
    refine ⟨string, (same i inside).symm.trans found, ?_⟩
    rw [show slot - 4 + 4 + 4 * i = slot + 4 * i by omega]
    exact pointed i string found
  · rw [show slot - 4 + 4 + 4 * argc = slot + 4 * argc by omega]
    exact last
  · intro a away
    unfold userStackTop userStackPages at away
    rw [outside a (by omega), writeBytes_outside _ (by omega)]
    refine writeBytes_outside memory ?_
    simp only [wordBytes, length_cons, length_nil]
    omega

/-- For every blob that passes the test of the call, the frame is refused
exactly when it does not fit its page, and nothing is written then; otherwise it
lies in the last page of the stack and the program finds its arguments. -/
theorem argv_frame (memory : Memory) {argc size : Nat} {blob pool : List UInt8}
    (accepted : validateArgv argc size blob = some pool) :
    let setup := userArgvSetup memory userStackTop argc pool
    (setup.1 = 0 ↔ ¬ Fits argc pool.length) ∧ (setup.1 = 0 → setup.2 = memory) ∧
      (setup.1 ≠ 0 → userStackTop - userArgvMaxBlobBytes ≤ setup.1 ∧
        ArgvFrame memory argc pool setup.1 setup.2) := by
  obtain ⟨count, short⟩ := validateArgv_spec accepted
  have fits := footprintFits_iff argc short
  dsimp only
  cases verdict : footprintFits argc (kept argc pool).length with
  | false =>
    have refused : userArgvSetup memory userStackTop argc pool = (0, memory) := by
      rw [userArgvSetup]
      exact if_pos verdict
    rw [refused]
    rw [verdict] at fits
    exact ⟨iff_of_true rfl fun fit => (nomatch fits.mpr fit), fun _ => rfl,
      fun built => absurd rfl built⟩
  | true =>
    obtain ⟨esp, memory', setup, last, frame⟩ := userArgvSetup_fits memory count verdict short
    have built : esp ≠ 0 := by
      unfold userStackTop at last
      omega
    rw [setup]
    exact ⟨iff_of_false built (not_not.mpr (fits.mp verdict)),
      fun refused => absurd refused built, fun _ => ⟨last, frame⟩⟩

/-- The frame of the arguments `a` and the empty string. -/
theorem argv_frame_sample : ∃ esp memory', userArgvSetup (fun _ => 0) userStackTop 2 [97, 0, 0] =
        (esp, memory') ∧ ArgvFrame (fun _ => 0) 2 [97, 0, 0] esp memory' := by
  obtain ⟨refused, -, built⟩ := argv_frame (fun _ => 0)
    (show validateArgv 2 11 [2, 0, 0, 0, 11, 0, 0, 0, 97, 0, 0] = some [97, 0, 0] by decide)
  refine ⟨_, _, rfl, (built fun zero => refused.mp zero ?_).2⟩
  unfold Fits
  decide

theorem countNuls_replicate (n : Nat) : countNuls (List.replicate n 0) = n := by
  induction n with
  | zero => rfl
  | succ _ ih => rw [replicate_succ, countNuls, if_pos rfl, ih]

/-- A blob of 1025 empty strings passes the test of the call and is refused by
the guard on the footprint. -/
theorem argv_frame_refused : ¬ ∀ (memory : Memory) (argc size : Nat) (blob pool : List UInt8),
      validateArgv argc size blob = some pool →
        ArgvFrame memory argc pool (userArgvSetup memory userStackTop argc pool).1
          (userArgvSetup memory userStackTop argc pool).2 := by
  intro claim
  have accepted : validateArgv 1025 1033 (List.replicate 1033 0) =
      some (List.replicate 1025 0) := by
    unfold validateArgv
    rw [drop_replicate, if_neg (by
      rw [length_replicate]
      decide), if_neg (not_not.mpr (countNuls_replicate _))]
  have refused (pool : List UInt8) :
      userArgvSetup (fun _ => 0) userStackTop 1025 pool = (0, fun _ => 0) := rfl
  have count := (claim (fun _ => 0) 1025 1033 _ _ accepted).count
  rw [refused] at count
  exact absurd count (by decide)

end MainDob.Kernel.UserArgv
