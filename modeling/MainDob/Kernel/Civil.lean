/-
Purpose: The civil calendar of kernel/time/civil.c: Unix seconds to date and time
  of day, and back.
Main exports: Civil, isLeapYear, monthDays
-/
import MainDob.Kernel.Div64

namespace MainDob.Kernel.Calendar

open Div64 (udiv64U32 umod64U32)

/-- The number of values of a `uint32_t`. -/
def word32 : Nat := 4294967296

/-- The number of values of a `uint64_t`. -/
def word64 : Nat := 18446744073709551616

/-- `civil_t`. -/
structure Civil where
  year : Nat
  month : Nat
  day : Nat
  hour : Nat
  minute : Nat
  second : Nat
deriving Repr, DecidableEq

/-- `days_in_month`. -/
def daysInMonth : List Nat := [31, 28, 31, 30, 31, 30, 31, 31, 30, 31, 30, 31]

/-- `days_before_month`. -/
def daysBeforeMonth : List Nat :=
  [0, 31, 59, 90, 120, 151, 181, 212, 243, 273, 304, 334]

/-- `is_leap_year`. -/
def isLeapYear (y : Nat) : Bool :=
  (y % 4 == 0 && y % 100 != 0) || y % 400 == 0

/-- `is_leap_year(y) ? 366 : 365`. -/
def yearDays (y : Nat) : Nat := if isLeapYear y then 366 else 365

theorem yearDays_ge (y : Nat) : 365 ≤ yearDays y := by
  unfold yearDays
  split <;> decide

/-- `month_days`. -/
def monthDays (year m : Nat) : Nat :=
  if m = 2 && isLeapYear year then 29 else daysInMonth.getD (m - 1) 0

/-- The years from `y` on, as many as `count`, added to `days`. -/
def addYears (y days : Nat) : Nat → Nat
  | 0 => days
  | count + 1 => addYears (y + 1) ((days + yearDays y) % word32) count

/-- `civil_to_unix_seconds`; `none` is a null pointer. -/
def civilToUnixSeconds (c : Option Civil) : Nat :=
  match c with
  | none => 0
  | some c =>
    if c.year < 1970 ∨ c.month < 1 ∨ c.month > 12 ∨ c.day < 1 then 0
    else
      let days := addYears 1970 0 (c.year - 1970)
      let days := (days + daysBeforeMonth.getD (c.month - 1) 0) % word32
      let days :=
        if c.month > 2 ∧ isLeapYear c.year then (days + 1) % word32 else days
      let days := (days + (c.day - 1)) % word32
      (days * 86400 + c.hour * 3600 + c.minute * 60 + c.second) % word64

/-- The year loop of `unix_seconds_to_civil`: the year, and the days left. -/
def yearWalk (year days : Nat) : Nat × Nat :=
  if days < yearDays year then (year, days)
  else yearWalk ((year + 1) % word32) (days - yearDays year)
termination_by days
decreasing_by
  have := yearDays_ge year
  omega

/-- The month loop from month `m` on: the month, and the days left.  A month that
is not found stays 1. -/
def monthWalk (year m days : Nat) : Nat × Nat :=
  if m ≤ 12 then
    if days < monthDays year m then (m, days)
    else monthWalk year (m + 1) (days - monthDays year m)
  else (1, days)
termination_by 13 - m

/-- `unix_seconds_to_civil`: what it stores through `out`; `none` when a divl
faults. -/
def unixSecondsToCivil (total : BitVec 64) : Option Civil := do
  let sOfDay ← umod64U32 total 86400
  let days ← udiv64U32 total 86400
  let sOfDay := sOfDay.toNat
  let second := sOfDay % 60
  let sOfDay := sOfDay / 60
  let minute := sOfDay % 60
  let hour := sOfDay / 60
  let (year, days) := yearWalk 1970 days.toNat
  let (month, days) := monthWalk year 1 days
  return ⟨year, month, (days % word32 + 1) % word32, hour, minute, second⟩

end MainDob.Kernel.Calendar
