/-
Purpose: The two directions of the calendar agree. A day's number is where its year starts, plus
  where its month starts in the year, plus the days before it; the table and the two walks both
  compute this, and it grows with the date.
Trusted boundary: none (fully proved)
Main exports: Valid, dayNumber, civil_inverse
-/
import MainDob.Lib.Blocks
import MainDob.Kernel.Civil
import MainDob.Proofs.Division

namespace MainDob.Kernel.Calendar

open Lib

/-- Every field in its calendar range, from 1970 on. -/
structure Valid (c : Civil) : Prop where
  year : 1970 ≤ c.year
  month : 1 ≤ c.month ∧ c.month ≤ 12
  day : 1 ≤ c.day ∧ c.day ≤ monthDays c.year c.month
  hour : c.hour < 24
  minute : c.minute < 60
  second : c.second < 60

/-- The fields, the most significant first: dates and times compare as these
lists do. -/
def fields (c : Civil) : List Nat :=
  [c.year, c.month, c.day, c.hour, c.minute, c.second]

/-- The days from 1 January of `year` to the first of the month. -/
def monthStart (year month : Nat) : Nat := blockStart (monthDays year) 1 month

/-- The days from 1 January 1970 to the date. -/
def dayNumber (c : Civil) : Nat :=
  blockStart yearDays 1970 c.year + (monthStart c.year c.month + (c.day - 1))

/-- The seconds of the day so far. -/
def timeOfDay (c : Civil) : Nat := c.hour * 3600 + c.minute * 60 + c.second

/-- The seconds from the start of 1970. -/
def secondsOf (c : Civil) : Nat := dayNumber c * 86400 + timeOfDay c

theorem Valid.timeOfDay_lt {c : Civil} (valid : Valid c) : timeOfDay c < 86400 := by
  have hour := valid.hour
  have minute := valid.minute
  have second := valid.second
  unfold timeOfDay
  omega

/-! ### The table and the sums -/

theorem monthStart_eq (year : Nat) {month : Nat} (low : 1 ≤ month) (high : month ≤ 13) :
    monthStart year month = if month = 13 then yearDays year else
      daysBeforeMonth.getD (month - 1) 0 + if month > 2 ∧ isLeapYear year then 1 else 0 := by
  have table : ∀ leap : Bool, ∀ m < 14, 1 ≤ m → (∑ i ∈ Finset.Ico 1 m,
        if i = 2 && leap then 29 else daysInMonth.getD (i - 1) 0) =
      if m = 13 then if leap then 366 else 365 else
        daysBeforeMonth.getD (m - 1) 0 + if m > 2 ∧ leap then 1 else 0 := by
    decide
  exact table (isLeapYear year) month (by omega) low

theorem monthStart_year (year : Nat) : monthStart year 13 = yearDays year :=
  (monthStart_eq year (by decide) (by decide)).trans (if_pos rfl)

theorem addYears_eq (count : Nat) : ∀ (y days : Nat), days < word32 → addYears y days count =
      (days + ∑ i ∈ Finset.Ico y (y + count), yearDays i) % word32 := by
  induction count with
  | zero =>
    intro y days bounded
    simp [addYears, Nat.mod_eq_of_lt bounded]
  | succ count ih =>
    intro y days bounded
    rw [addYears, ih _ _ (Nat.mod_lt _ (by decide)), Nat.mod_add_mod, Finset.sum_eq_sum_Ico_succ_bot
      (a := y) (by omega), add_assoc, show y + 1 + count = y + (count + 1) by omega]

theorem addYears_start {year : Nat} (since : 1970 ≤ year) :
    addYears 1970 0 (year - 1970) = blockStart yearDays 1970 year % word32 := by
  rw [addYears_eq _ _ _ (by decide), zero_add, Nat.add_sub_cancel' since]
  rfl

theorem civilToUnixSeconds_eq {c : Civil} (valid : Valid c) (fits : dayNumber c < word32) :
    civilToUnixSeconds (some c) = secondsOf c := by
  have year := valid.year
  have month := valid.month
  have day := valid.day
  have time := valid.timeOfDay_lt
  have months := monthStart_eq c.year month.1 (by omega)
  rw [if_neg (by omega)] at months
  unfold secondsOf
  unfold dayNumber at fits ⊢
  unfold civilToUnixSeconds
  dsimp only
  rw [if_neg (by omega), addYears_start year]
  unfold word32 word64 at *
  generalize blockStart yearDays 1970 c.year = years at *
  generalize daysBeforeMonth.getD (c.month - 1) 0 = table at *
  have leapDay : (if c.month > 2 ∧ isLeapYear c.year then
      (years + table + 1) % 4294967296 else years + table) =
      years + monthStart c.year c.month := by
    split at months
    next leap =>
      rw [if_pos leap, Nat.mod_eq_of_lt (by omega)]
      omega
    next plain =>
      rw [if_neg plain]
      omega
  rw [Nat.mod_eq_of_lt (a := years) (by omega), Nat.mod_eq_of_lt (a := years + table) (by omega),
    leapDay, Nat.mod_eq_of_lt (b := 4294967296) (by omega)]
  have sum (days : Nat) : days * 86400 + c.hour * 3600 + c.minute * 60 + c.second =
      days * 86400 + timeOfDay c := by
    unfold timeOfDay
    omega
  rw [sum, Nat.mod_eq_of_lt (by omega), add_assoc years]

/-! ### The walks -/

theorem yearWalk_spec (year days : Nat) (since : 1970 ≤ year)
    (bounded : 365 * year + days < 365 * word32) :
    ∃ found left, yearWalk year days = (found, left) ∧ 1970 ≤ found ∧ left < yearDays found ∧
      blockStart yearDays 1970 found + left = blockStart yearDays 1970 year + days := by
  induction days using Nat.strong_induction_on generalizing year with
  | h days ih =>
    rw [yearWalk]
    have long := yearDays_ge year
    by_cases inside : days < yearDays year
    · rw [if_pos inside]
      exact ⟨year, days, rfl, since, inside, rfl⟩
    rw [if_neg inside, Nat.mod_eq_of_lt (by omega)]
    obtain ⟨found, left, walked, later, within, same⟩ :=
      ih (days - yearDays year) (by omega) (year + 1) (by omega) (by omega)
    refine ⟨found, left, walked, later, within, ?_⟩
    rw [same, blockStart_succ yearDays 1970 since]
    omega

theorem monthWalk_spec (year m days : Nat) (low : 1 ≤ m) (high : m ≤ 13)
    (inYear : monthStart year m + days < yearDays year) :
    ∃ found left, monthWalk year m days = (found, left) ∧ (1 ≤ found ∧ found ≤ 12) ∧
      left < monthDays year found ∧ monthStart year found + left = monthStart year m + days := by
  have notPast : m ≠ 13 := by
    rintro rfl
    rw [monthStart_year] at inYear
    omega
  rw [monthWalk, if_pos (by omega)]
  by_cases inside : days < monthDays year m
  · rw [if_pos inside]
    exact ⟨m, days, rfl, ⟨low, by omega⟩, inside, rfl⟩
  rw [if_neg inside]
  have next : monthStart year (m + 1) = monthStart year m + monthDays year m :=
    blockStart_succ (monthDays year) 1 low
  obtain ⟨found, left, walked, range, within, same⟩ :=
    monthWalk_spec year (m + 1) (days - monthDays year m) (by omega) (by omega) (by omega)
  exact ⟨found, left, walked, range, within, by omega⟩
termination_by 13 - m
decreasing_by omega

theorem unixSecondsToCivil_spec (total : BitVec 64) (bounded : total.toNat < 86400 * word32) :
    ∃ c, unixSecondsToCivil total = some c ∧
    Valid c ∧ dayNumber c < word32 ∧ secondsOf c = total.toNat := by
  obtain ⟨days, seconds, divided, remainder, quotient, rest⟩ :=
    Div64.divisions_u32 total (show (86400 : BitVec 32) ≠ 0 by decide)
  have divisor : (86400 : BitVec 32).toNat = 86400 := by decide
  rw [divisor] at quotient rest
  unfold word32 at bounded
  obtain ⟨year, inYear, years, since, ofYear, sameYear⟩ :=
    yearWalk_spec 1970 days.toNat (le_refl _) (by unfold word32; omega)
  rw [blockStart_first, zero_add] at sameYear
  have start : monthStart year 1 = 0 := blockStart_first (monthDays year) 1
  obtain ⟨month, inMonth, months, range, ofMonth, sameMonth⟩ :=
    monthWalk_spec year 1 inYear (le_refl _) (by decide) (by omega)
  have short : yearDays year ≤ 366 := by
    unfold yearDays
    split <;> decide
  have small : inMonth + 1 < 4294967296 := by omega
  refine ⟨⟨year, month, inMonth + 1, seconds.toNat / 60 / 60,
    seconds.toNat / 60 % 60, seconds.toNat % 60⟩, ?_, ?_, ?_, ?_⟩
  · unfold unixSecondsToCivil word32
    rw [remainder, divided]
    simp only [Option.bind_eq_bind, Option.bind_some, years, months]
    rw [Nat.mod_eq_of_lt (a := inMonth) (by omega), Nat.mod_eq_of_lt small]
    rfl
  · exact ⟨since, range, ⟨by simp, ofMonth⟩, by dsimp only; omega,
      Nat.mod_lt _ (by decide), Nat.mod_lt _ (by decide)⟩
  · unfold dayNumber word32
    dsimp only
    omega
  · unfold secondsOf dayNumber timeOfDay
    dsimp only
    omega

/-! ### The order -/

theorem secondsOf_lt {a b : Civil} (validA : Valid a) (validB : Valid b)
    (before : fields a < fields b) : secondsOf a < secondsOf b := by
  have timeA := validA.timeOfDay_lt
  have dayA := validA.day
  have dayB := validB.day
  have monthA := validA.month
  have monthB := validB.month
  have minuteA := validA.minute
  have secondA := validA.second
  have inYear : monthStart a.year a.month + (a.day - 1) < yearDays a.year := by
    rw [← monthStart_year]
    exact place_lt monthA.1 (by omega) (by omega)
  simp only [fields, List.cons_lt_cons_iff] at before
  unfold secondsOf dayNumber
  rcases before with earlier | ⟨sameYear, earlier | ⟨sameMonth, rest⟩⟩
  · have days := place_lt validA.year earlier inYear
    omega
  · have days : monthStart a.year a.month + (a.day - 1) <
        monthStart a.year b.month := place_lt monthA.1 earlier (by omega)
    rw [sameYear] at days ⊢
    omega
  · rw [sameYear, sameMonth]
    simp only [List.not_lt_nil, and_false, or_false] at rest
    have later : a.day < b.day ∨ a.day = b.day ∧ timeOfDay a < timeOfDay b := by
      unfold timeOfDay
      omega
    omega

theorem secondsOf_injective {a b : Civil} (validA : Valid a) (validB : Valid b)
    (same : secondsOf a = secondsOf b) : a = b := by
  have fieldsEq : fields a = fields b := by
    rcases lt_trichotomy (fields a) (fields b) with before | equal | after
    · exact absurd same (ne_of_lt (secondsOf_lt validA validB before))
    · exact equal
    · exact absurd same.symm (ne_of_lt (secondsOf_lt validB validA after))
  cases a
  cases b
  simpa [fields] using fieldsEq

/-- The two conversions are inverse to each other and keep the order. -/
theorem civil_inverse : (∀ total : BitVec 64, total.toNat < 86400 * 2 ^ 32 →
      ∃ c, unixSecondsToCivil total = some c ∧ Valid c ∧
        civilToUnixSeconds (some c) = total.toNat) ∧ (∀ c, Valid c → dayNumber c < 2 ^ 32 →
      unixSecondsToCivil (BitVec.ofNat 64 (civilToUnixSeconds (some c))) = some c) ∧
    (∀ a b, Valid a → Valid b → dayNumber a < 2 ^ 32 → dayNumber b < 2 ^ 32 → fields a < fields b →
      civilToUnixSeconds (some a) < civilToUnixSeconds (some b)) := by
  refine ⟨?thereAndBack, ?backAndThere, ?order⟩
  case thereAndBack =>
    intro total bounded
    obtain ⟨c, stored, valid, fits, same⟩ := unixSecondsToCivil_spec total bounded
    exact ⟨c, stored, valid, (civilToUnixSeconds_eq valid fits).trans same⟩
  case backAndThere =>
    intro c valid fits
    have time := valid.timeOfDay_lt
    have bounded : secondsOf c < 86400 * word32 := by
      unfold secondsOf word32
      omega
    rw [civilToUnixSeconds_eq valid fits]
    have exact64 : (BitVec.ofNat 64 (secondsOf c)).toNat = secondsOf c := by
      rw [BitVec.toNat_ofNat]
      exact Nat.mod_eq_of_lt (lt_trans bounded (by decide))
    obtain ⟨_, stored, validFound, _, same⟩ :=
      unixSecondsToCivil_spec (BitVec.ofNat 64 (secondsOf c)) (by rw [exact64]; exact bounded)
    rw [stored, secondsOf_injective validFound valid (same.trans exact64)]
  case order =>
    intro a b validA validB fitsA fitsB before
    rw [civilToUnixSeconds_eq validA fitsA, civilToUnixSeconds_eq validB fitsB]
    exact secondsOf_lt validA validB before

/-- A leap day in a century year. -/
theorem civil_inverse_leapDay : civilToUnixSeconds (some ⟨2000, 2, 29, 12, 0, 0⟩) = 951825600 ∧
      unixSecondsToCivil (BitVec.ofNat 64 (civilToUnixSeconds (some ⟨2000, 2, 29, 12, 0, 0⟩))) =
          some ⟨2000, 2, 29, 12, 0, 0⟩ :=
  ⟨by decide +kernel, civil_inverse.2.1 _
    ⟨by decide, by decide, by decide, by decide, by decide, by decide⟩ (by decide +kernel)⟩

end MainDob.Kernel.Calendar
