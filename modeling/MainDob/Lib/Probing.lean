/-
Purpose: Open addressing with linear probing. A key is looked for from its home slot on, past
  other keys and past freed slots, up to a slot that was never used.
Main exports: Slot, Probed, Probed.find_iff
-/
import Mathlib.Data.Nat.ModEq
import Mathlib.Logic.Function.Basic

namespace MainDob.Lib.Probing

open Function

variable {K V : Type}

/-- A slot: never used, freed, or taken by a key. -/
inductive Slot (K V : Type) where
  | empty
  | freed
  | taken (key : K) (value : V)

/-- The slot that is looked at after `i` others. -/
def place (n home i : Nat) : Nat := (home + i) % n

variable {n : Nat} {home : K → Nat} {slots : Nat → Slot K V}

variable {i : Nat}

theorem place_lt (some : i < n) (h : Nat) : place n h i < n :=
  Nat.mod_lt _ (Nat.zero_lt_of_lt some)

theorem place_inj {h j : Nat} (first : i < n) (second : j < n)
    (same : place n h i = place n h j) : i = j :=
  Nat.ModEq.eq_of_lt_of_lt (Nat.ModEq.add_left_cancel' h same) first second

variable {p : Nat}

theorem exists_place (inside : p < n) (h : Nat) : ∃ i < n, place n h i = p := by
  have some := Nat.zero_lt_of_lt inside
  have below := Nat.mod_lt h some
  refine ⟨(p + (n - h % n)) % n, Nat.mod_lt _ some, ?_⟩
  have whole : h % n + (p + (n - h % n)) = p + n := by omega
  rw [place, Nat.add_mod_mod, ← Nat.mod_add_mod, whole, Nat.add_mod_right, Nat.mod_eq_of_lt inside]

/-- No slot between a key's home and its own is empty, and no key has two slots. -/
structure Probed (n : Nat) (home : K → Nat) (slots : Nat → Slot K V) : Prop where
  reached : ∀ {p k v}, p < n → slots p = .taken k v → ∃ i < n, place n (home k) i = p ∧
    ∀ j < i, slots (place n (home k) j) ≠ .empty
  unique : ∀ {p q k v w}, p < n → q < n → slots p = .taken k v → slots q = .taken k w → p = q

/-- A key and its value are in the table. -/
def Holds (n : Nat) (slots : Nat → Slot K V) (k : K) (v : V) : Prop :=
  ∃ p < n, slots p = .taken k v

/-- The search for a key goes no further. -/
def Stops (slots : Nat → Slot K V) (k : K) (p : Nat) : Prop :=
  slots p = .empty ∨ ∃ v, slots p = .taken k v

theorem probed_empty (clear : ∀ p, slots p = .empty) : Probed n home slots where
  reached _ taken := by cases (clear _).symm.trans taken
  unique _ _ taken := by cases (clear _).symm.trans taken

variable {k : K} {v : V}

section

variable (probed : Probed n home slots)
include probed

theorem Probed.find_iff : p < n ∧ slots p = .taken k v ↔ ∃ i < n, place n (home k) i = p ∧
    slots p = .taken k v ∧ ∀ j < i, ¬ Stops slots k (place n (home k) j) := by
  constructor
  · rintro ⟨inside, taken⟩
    obtain ⟨i, bound, here, passed⟩ := probed.reached inside taken
    refine ⟨i, bound, here, taken, fun j before stops => ?_⟩
    rcases stops with empty | ⟨w, own⟩
    · exact passed j before empty
    · have earlier := lt_trans before bound
      have same := probed.unique (place_lt earlier _) inside own taken
      exact ne_of_lt before (place_inj earlier bound (same.trans here.symm))
  · rintro ⟨_, bound, rfl, taken, _⟩
    exact ⟨place_lt bound _, taken⟩

theorem Probed.write (s : Slot K V) (used : s ≠ .empty) (own : ∀ k v, s = .taken k v →
      (∃ i < n, place n (home k) i = p ∧ ∀ j < i, slots (place n (home k) j) ≠ .empty) ∧
        ∀ q < n, ∀ w, slots q = .taken k w → q = p) : Probed n home (update slots p s) := by
  have stays : ∀ {q}, slots q ≠ .empty → update slots p s q ≠ .empty := by
    intro q full
    by_cases here : q = p
    · rwa [here, update_self]
    · rwa [update_of_ne here]
  constructor
  · intro q k v inside taken
    by_cases here : q = p
    · rw [here, update_self] at taken
      obtain ⟨⟨i, bound, there, passed⟩, _⟩ := own k v taken
      exact ⟨i, bound, there.trans here.symm, fun j before => stays (passed j before)⟩
    · rw [update_of_ne here] at taken
      obtain ⟨i, bound, there, passed⟩ := probed.reached inside taken
      exact ⟨i, bound, there, fun j before => stays (passed j before)⟩
  · intro q r k v w inside within first second
    by_cases here : q = p <;> by_cases there : r = p
    · rw [here, there]
    · rw [here, update_self] at first
      rw [update_of_ne there] at second
      exact absurd ((own k v first).2 r within w second) there
    · rw [there, update_self] at second
      rw [update_of_ne here] at first
      exact absurd ((own k w second).2 q inside v first) here
    · rw [update_of_ne here] at first
      rw [update_of_ne there] at second
      exact probed.unique inside within first second

theorem Probed.insert (v : V) (absent : ∀ w, ¬ Holds n slots k w) (bound : i < n)
    (passed : ∀ j < i, slots (place n (home k) j) ≠ .empty) :
    Probed n home (update slots (place n (home k) i) (.taken k v)) := by
  refine probed.write _ nofun ?_
  rintro _ _ ⟨⟩
  exact ⟨⟨i, bound, rfl, passed⟩, fun q within w taken => absurd ⟨q, within, taken⟩ (absent w)⟩

theorem Probed.rewrite (w : V) (inside : p < n)
    (taken : slots p = .taken k v) : Probed n home (update slots p (.taken k w)) := by
  refine probed.write _ nofun ?_
  rintro _ _ ⟨⟩
  exact ⟨probed.reached inside taken, fun q within w own => probed.unique within inside own taken⟩

theorem Probed.free (p : Nat) : Probed n home (update slots p .freed) :=
  probed.write _ nofun nofun

end

theorem holds_write (inside : p < n) (s : Slot K V) :
    Holds n (update slots p s) k v ↔ s = .taken k v ∨ ∃ q < n, q ≠ p ∧ slots q = .taken k v := by
  constructor
  · rintro ⟨q, within, taken⟩
    by_cases here : q = p
    · rw [here, update_self] at taken
      exact Or.inl taken
    · rw [update_of_ne here] at taken
      exact Or.inr ⟨q, within, here, taken⟩
  · rintro (rfl | ⟨q, within, apart, taken⟩)
    · exact ⟨p, inside, update_self ..⟩
    · exact ⟨q, within, (update_of_ne apart ..).trans taken⟩

theorem holds_write_other (inside : p < n) (s : Slot K V) {other : K}
    (mine : ∀ k' v, s = .taken k' v ∨ slots p = .taken k' v → k' = k) (apart : other ≠ k) :
    Holds n (update slots p s) other v ↔ Holds n slots other v := by
  rw [holds_write inside]
  constructor
  · rintro (taken | ⟨q, within, _, taken⟩)
    · exact absurd (mine _ _ (Or.inl taken)) apart
    · exact ⟨q, within, taken⟩
  · rintro ⟨q, within, taken⟩
    refine Or.inr ⟨q, within, ?_, taken⟩
    rintro rfl
    exact apart (mine _ _ (Or.inr taken))

theorem holds_write_self (inside : p < n) {w : V} (own : ∀ q < n, ∀ u, slots q = .taken k u →
    q = p) : Holds n (update slots p (.taken k w)) k v ↔ v = w := by
  rw [holds_write inside]
  constructor
  · rintro (same | ⟨q, within, apart, taken⟩)
    · exact (Slot.taken.inj same).2.symm
    · exact absurd (own q within v taken) apart
  · rintro rfl
    exact Or.inl rfl

end MainDob.Lib.Probing
