/-
Purpose: The reservations of the interrupt lines over all runs: which lines the
  search for a free one returns, who holds a lease, and when a line is free again.
Trusted boundary: none (fully proved)
Main exports: Meets, LineInv, irq_reservations
-/
import MainDob.Kernel.IrqDiscovery
import MainDob.Lib.Runs

namespace MainDob.Kernel.IrqDiscovery

open Function (update update_self update_of_ne)
open Lib
open List

/-- The condition: who looks for a free line owns none; who registers does it on no
line that another one leases; and who dies holds no line of the kernel and none that
another driver is registered on. -/
def Meets (s : Discovery) : Label → Prop
  | .findFree caller => caller ≠ 0 → ∀ line < irqDiscoveryLines,
      (s.reservations line).holder = caller → (s.reservations line).expiresAt ≠ 0
  | .register pid line => s.now < (s.reservations line).expiresAt →
      (s.reservations line).holder = pid
  | .death pid => ∀ line < irqDiscoveryLines, (s.reservations line).holder = pid →
      line ∉ legacyLines ∧ ∀ other ∈ s.sharers line, other = pid
  | .pass _ => True

instance (s : Discovery) (label : Label) : Decidable (Meets s label) :=
  match label with
  | .findFree _ => inferInstanceAs (Decidable (_ → ∀ line < irqDiscoveryLines, _ → _))
  | .register _ _ => inferInstanceAs (Decidable (_ → _))
  | .death _ => inferInstanceAs (Decidable (∀ line < irqDiscoveryLines, _ → _ ∧ _))
  | .pass _ => inferInstanceAs (Decidable True)

/-! ### The invariant -/

/-- What a reservation says about its line: a holder without an end is registered on
it, or the line is one of the kernel; a line without such a holder has no drivers;
and a lease that runs is the one its holder was granted. -/
structure LineInv (s : Discovery) (line : Nat) : Prop where
  owned : (s.reservations line).holder ≠ 0 → (s.reservations line).expiresAt = 0 →
    line ∈ legacyLines ∨ (s.reservations line).holder ∈ s.sharers line
  loose : (s.reservations line).holder = 0 ∨ (s.reservations line).expiresAt ≠ 0 →
    line ∉ legacyLines ∧ s.sharers line = []
  leased : (s.reservations line).expiresAt ≠ 0 → (s.reservations line).holder ≠ 0 ∧
    s.grants line (s.reservations line).holder = (s.reservations line).expiresAt
  granted : ∀ pid, s.now < s.grants line pid → (s.reservations line).holder = pid ∧
    (s.reservations line).expiresAt = s.grants line pid

/-- What every step keeps. -/
def Inv (s : Discovery) : Prop := ∀ line < irqDiscoveryLines, LineInv s line

variable {s s' : Discovery} {line caller pid : Nat}

section

variable (inv : LineInv s line)
include inv

theorem LineInv.kept (reservation : s'.reservations line = s.reservations line)
    (grants : s'.grants line = s.grants line) (sharers : s'.sharers line = s.sharers line)
    (later : s.now ≤ s'.now) : LineInv s' line := by
  constructor <;> simp only [reservation, grants, sharers]
  · exact inv.owned
  · exact inv.loose
  · exact inv.leased
  · exact fun pid running => inv.granted pid (by omega)

theorem LineInv.lease (loose : (s.reservations line).holder = 0 ∨
    (s.reservations line).expiresAt ≠ 0) (sole : ∀ pid, s.now < s.grants line pid → pid = caller)
    (some : caller ≠ 0) : LineInv (s.lease line caller) line := by
  have ends : s.now + irqReservationTimeoutMs ≠ 0 := by
    unfold irqReservationTimeoutMs
    omega
  constructor <;> simp only [Discovery.lease, Discovery.setGrant, update_self]
  · exact fun _ none => absurd none ends
  · exact fun _ => inv.loose loose
  · exact fun _ => ⟨some, trivial⟩
  intro pid running
  by_cases same : pid = caller
  · subst same
    rw [update_self]
    exact ⟨rfl, rfl⟩
  · rw [update_of_ne same] at running
    exact absurd (sole pid running) same

theorem LineInv.promote
    (sole : s.now < (s.reservations line).expiresAt → (s.reservations line).holder = pid)
    (same : s'.reservations = s.reservations ∧ s'.grants = s.grants ∧ s'.now = s.now)
    (mine : pid ∈ s'.sharers line) (some : pid ≠ 0) :
    LineInv { s' with
      reservations := update s'.reservations line ⟨pid, 0⟩
      grants := s'.setGrant line pid 0 } line := by
  obtain ⟨reservations, grants, now⟩ := same
  constructor <;> simp only [Discovery.setGrant, update_self, reservations, grants, now]
  · exact fun _ _ => .inr mine
  · exact fun none => absurd none (by simpa using some)
  · exact fun ends => absurd rfl ends
  intro q running
  by_cases same : q = pid
  · subst same
    rw [update_self] at running
    omega
  · rw [update_of_ne same] at running
    obtain ⟨holds, ends⟩ := inv.granted q running
    exact absurd (holds.symm.trans (sole (by rw [ends]; exact running))) same

theorem LineInv.die (meets : (s.reservations line).holder = pid →
      line ∉ legacyLines ∧ ∀ other ∈ s.sharers line, other = pid) (some : pid ≠ 0) :
    LineInv (irqCleanup s pid) line := by
  have running {q : Nat} (later : s.now < update (s.grants line) pid 0 q) :
      q ≠ pid ∧ s.now < s.grants line q := by
    by_cases same : q = pid
    · subst same
      rw [update_self] at later
      omega
    · rw [update_of_ne same] at later
      exact ⟨same, later⟩
  unfold irqCleanup irqDiscoveryReleaseForPid
  rw [if_neg some]
  by_cases mine : (s.reservations line).holder = pid
  · obtain ⟨free, alone⟩ := meets mine
    constructor <;> simp only [if_pos mine]
    · exact fun none => absurd rfl none
    · refine fun _ => ⟨free, filter_eq_nil_iff.mpr fun other present => ?_⟩
      simpa using alone other present
    · exact fun ends => absurd rfl ends
    · intro q later
      obtain ⟨apart, later⟩ := running later
      exact absurd ((inv.granted q later).1.symm.trans mine) apart
  · constructor <;> simp only [if_neg mine, update_of_ne mine]
    · exact fun held permanent => (inv.owned held permanent).imp_right fun present =>
        mem_filter.mpr ⟨present, decide_eq_true mine⟩
    · intro loose
      obtain ⟨free, none⟩ := inv.loose loose
      exact ⟨free, by rw [none]; rfl⟩
    · exact inv.leased
    · intro q later
      obtain ⟨apart, later⟩ := running later
      rw [update_of_ne apart]
      exact inv.granted q later

end

/-! ### Steps -/

theorem findFree_cases (s : Discovery) (caller : Nat) :
    irqDiscoveryFindFree s caller = (s, none) ∨ caller ≠ 0 ∧
    ∃ i < irqDiscoveryLines, irqDiscoveryFindFree s caller = (s.lease i caller, some i) ∧
        ((s.reservations i).holder = caller ∧ isExpired (s.reservations i) s.now = false ∨
          isFree (s.reservations i) s.now = true) := by
  unfold irqDiscoveryFindFree
  by_cases kernel : caller = 0
  · exact .inl (if_pos kernel)
  rw [if_neg kernel]
  cases mine : heldBy s caller with
  | some i =>
    have here := List.find?_some mine
    have inside := mem_range.mp (mem_of_find?_eq_some mine)
    simp only [Bool.and_eq_true, decide_eq_true_eq, Bool.not_eq_true'] at here
    exact .inr ⟨kernel, i, inside, rfl, .inl here⟩
  | none =>
    dsimp only
    split
    · rename_i i found
      have inside := mem_range'_1.mp (mem_of_find?_eq_some found)
      exact .inr ⟨kernel, i, by unfold irqDiscoveryLines at inside ⊢; omega, rfl,
        .inr (by simpa using List.find?_some found)⟩
    · exact .inl rfl

theorem Inv.handed (inv : Inv s) (meets : Meets s (.findFree caller)) (some : caller ≠ 0)
    (inside : line < irqDiscoveryLines)
    (why : (s.reservations line).holder = caller ∧ isExpired (s.reservations line) s.now = false ∨
      isFree (s.reservations line) s.now = true) : ((s.reservations line).holder = 0 ∨
    (s.reservations line).expiresAt ≠ 0) ∧ ∀ pid, s.now < s.grants line pid → pid = caller := by
  have lineInv := inv line inside
  rcases why with ⟨mine, _⟩ | free
  · exact ⟨.inr (meets some line inside mine), fun pid running =>
      (lineInv.granted pid running).1.symm.trans mine⟩
  unfold isFree isExpired at free
  by_cases none : (s.reservations line).holder = 0
  · refine ⟨.inl none, fun pid running => ?_⟩
    obtain ⟨_, ends⟩ := lineInv.granted pid running
    exact absurd none (lineInv.leased (by omega)).1
  rw [if_neg none] at free
  split at free
  · cases free
  rename_i ends
  refine ⟨.inr ends, fun pid running => ?_⟩
  have expired := of_decide_eq_true free
  have := (lineInv.granted pid running).2
  omega

theorem Inv.initial (now : Nat) : Inv (initial now) := fun line _ => by
  by_cases legacy : line ∈ legacyLines
  · constructor <;> simp [IrqDiscovery.initial, legacy, kernelSentinel]
  · constructor <;> simp [IrqDiscovery.initial, legacy]

theorem Inv.step (inv : Inv s) {label : Label} (meets : Meets s label)
    (taken : IrqDiscovery.step s label s') : Inv s' := by
  intro other inside
  have otherInv := inv other inside
  cases label with
  | findFree caller =>
    cases taken
    rcases findFree_cases s caller with same | ⟨some, i, _, leases, why⟩
    · rw [same]
      exact otherInv
    rw [leases]
    by_cases here : other = i
    · subst here
      obtain ⟨loose, sole⟩ := inv.handed meets some inside why
      exact otherInv.lease loose sole some
    · exact otherInv.kept (update_of_ne here _ _) (update_of_ne here _ _) rfl (Nat.le_refl _)
  | register _ line =>
    simp only [IrqDiscovery.step, exec, Option.ite_none_right_eq_some] at taken
    obtain ⟨⟨some, _⟩, same⟩ := taken
    cases same
    unfold irqAttachSharer irqDiscoveryPromote
    split
    · exact otherInv
    split
    · exact otherInv
    split
    · exact otherInv.kept rfl rfl (update_of_ne (by omega) _ _) (Nat.le_refl _)
    by_cases here : other = line
    · subst here
      exact otherInv.promote meets ⟨rfl, rfl, rfl⟩ (by simp) some
    · exact otherInv.kept (update_of_ne here _ _) (update_of_ne here _ _)
        (update_of_ne here _ _) (Nat.le_refl _)
  | death =>
    simp only [IrqDiscovery.step, exec, Option.ite_none_right_eq_some] at taken
    obtain ⟨some, same⟩ := taken
    cases same
    exact otherInv.die (meets other inside) some
  | pass =>
    cases taken
    exact otherInv.kept rfl rfl rfl (Nat.le_add_right _ _)

/-! ### Whole runs -/

/-- What holds of the reservations: a line that is handed out is none of the kernel and
has no driver; two processes never lease one line; and a line without a driver and a
lease that runs is free, so that who has no reservation finds it or one before it. -/
structure Reserved (s : Discovery) : Prop where
  handed : ∀ caller line, Meets s (.findFree caller) →
    (irqDiscoveryFindFree s caller).2 = some line → line ∉ legacyLines ∧ s.sharers line = []
  sole : ∀ line < irqDiscoveryLines, ∀ one two, s.now < s.grants line one →
    s.now < s.grants line two → one = two
  available : ∀ line < irqDiscoveryLines, line ∉
    legacyLines → s.sharers line = [] → (∀ pid, s.grants line pid ≤ s.now) → ∀ caller, caller ≠ 0 →
    heldBy s caller = none → ∃ found ≤ line, (irqDiscoveryFindFree s caller).2 = some found

theorem LineInv.free (inv : LineInv s line) (plain : line ∉ legacyLines)
    (none : s.sharers line = []) (ended : ∀ pid, s.grants line pid ≤ s.now) :
    isFree (s.reservations line) s.now = true := by
  unfold isFree isExpired
  by_cases unheld : (s.reservations line).holder = 0
  · rw [if_pos unheld]
  rw [if_neg unheld]
  by_cases permanent : (s.reservations line).expiresAt = 0
  · have present := (inv.owned unheld permanent).resolve_left plain
    rw [none] at present
    cases present
  · rw [if_neg permanent, decide_eq_true_eq, ← (inv.leased permanent).2]
    exact ended _

theorem Inv.reserved (inv : Inv s) : Reserved s where
  handed caller line meets finds := by
    rcases findFree_cases s caller with same | ⟨some, i, inside, leases, why⟩
    · rw [same] at finds
      cases finds
    · rw [leases] at finds
      cases finds
      exact (inv line inside).loose (inv.handed meets some inside why).1
  sole line inside one two first second :=
    ((inv line inside).granted one first).1.symm.trans ((inv line inside).granted two second).1
  available line inside plain none ended caller some unheld := by
    have free := (inv line inside).free plain none ended
    have listed : line ∈ List.range' 3 (irqDiscoveryLines - 3) := by
      unfold legacyLines at plain
      simp only [mem_cons, not_or] at plain
      rw [mem_range'_1]
      omega
    unfold irqDiscoveryFindFree
    rw [if_neg some, unheld]
    cases finds : (List.range' 3 (irqDiscoveryLines - 3)).find? fun i =>
        isFree (s.reservations i) s.now with
    | none => exact absurd free (by simpa using List.find?_eq_none.mp finds line listed)
    | some found =>
      obtain ⟨_, before, after, parts, earlier⟩ := List.find?_eq_some_iff_append.mp finds
      refine ⟨found, ?_, rfl⟩
      have sorted : (List.range' 3 (irqDiscoveryLines - 3)).Pairwise (· < ·) := pairwise_lt_range' 1
      rw [parts] at listed sorted
      rcases mem_append.mp listed with early | late
      · exact absurd free (by simpa using earlier line early)
      rcases mem_cons.mp late with same | behind
      · exact Nat.le_of_eq same.symm
      · exact Nat.le_of_lt (rel_of_pairwise_cons (pairwise_append.mp sorted).2.1 behind)

/-- In every run whose steps meet the condition the reservations hold what they
promise. -/
theorem irq_reservations {now : Nat} {labels : List Label}
    (run : Steps (Guarded step Meets) (initial now) labels s) : Reserved s :=
  (run.invariant (fun _ _ _ inv taken => inv.step taken.2 taken.1) (Inv.initial now)).reserved

/-- A driver finds a line and registers on it; when it has died another one gets it. -/
theorem irq_reservations_two : ∃ s, Steps (Guarded step Meets) (initial 0)
    [.findFree 5, .register 5 3, .pass 3000, .death 5, .findFree 6] s ∧ Reserved s := by
  have run : Steps (Guarded step Meets) (initial 0)
      [.findFree 5, .register 5 3, .pass 3000, .death 5, .findFree 6] _ :=
    .cons ⟨rfl, by decide⟩ (.cons ⟨rfl, by decide⟩ (.cons ⟨rfl, trivial⟩
      (.cons ⟨rfl, by decide⟩ (.cons ⟨rfl, by decide⟩ (.nil _)))))
  exact ⟨_, run, irq_reservations run⟩

/-- A line that two drivers share is handed out when the one who came last dies; its
owner gets it again as a free one, and with a lease; and a line that is leased to one
process is leased to another when a third has registered on it and died. -/
theorem irq_reservations_fail :
    (followRun exec (initial 0) [.register 5 3, .register 6 3, .death 6]).any
      (fun s => s.sharers 3 == [5] && (irqDiscoveryFindFree s 7).2 == some 3) = true ∧
    (followRun exec (initial 0) [.register 5 3]).any
      (fun s => s.sharers 3 == [5] && (irqDiscoveryFindFree s 5).2 == some 3) = true ∧
    (followRun exec (initial 0) [.findFree 5, .register 6 3, .death 6, .findFree 7]).any
      (fun s => s.now < s.grants 3 5 && s.now < s.grants 3 7) = true := by
  refine ⟨?_, ?_, ?_⟩ <;> decide

end MainDob.Kernel.IrqDiscovery
