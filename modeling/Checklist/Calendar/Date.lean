import Checklist.Text.Digit

/-!
# Dates — the days of the Gregorian calendar from year 1 to year 9999

A `Date` carries the proof that it names a real day. Its `ordinal` counts the days from the first
day of year 1, which is day 1, and dates are ordered by it. `next?` is the day after, which the very
last day does not have.
-/

namespace Checklist

/-- Whether the year has a 29th of February. -/
def isLeapYear (year : Nat) : Bool := year % 4 = 0 && (year % 100 ≠ 0 || year % 400 = 0)

/-- How many days the month has, where January is 1. -/
def daysInMonth (year month : Nat) : Nat :=
  if month = 2 then (if isLeapYear year then 29 else 28)
  else if month = 4 || month = 6 || month = 9 || month = 11 then 30
  else 31

/-- A real day of the calendar. -/
structure Date where
  year : Nat
  month : Nat
  day : Nat
  /-- The three numbers name a day. -/
  valid : (1 ≤ year ∧ year ≤ 9999) ∧ (1 ≤ month ∧ month ≤ 12) ∧
    (1 ≤ day ∧ day ≤ daysInMonth year month)
  deriving DecidableEq

namespace Date

/-- The day with these numbers, if there is one. -/
def of? (year month day : Nat) : Option Date :=
  if h : (1 ≤ year ∧ year ≤ 9999) ∧ (1 ≤ month ∧ month ≤ 12) ∧
      (1 ≤ day ∧ day ≤ daysInMonth year month) then
    some ⟨year, month, day, h⟩
  else none

/-- The first day of the calendar. -/
def first : Date := ⟨1, 1, 1, by decide⟩

/-- How many days lie before the first day of the year. -/
def daysBeforeYear (year : Nat) : Nat :=
  365 * (year - 1) + (year - 1) / 4 - (year - 1) / 100 + (year - 1) / 400

/-- How many days the first `month` months of the year have. -/
def daysThrough (year : Nat) : Nat → Nat
  | 0 => 0
  | month + 1 => daysThrough year month + daysInMonth year (month + 1)

/-- The number of the day, counted from the first day of the calendar, which is 1. -/
def ordinal (d : Date) : Nat :=
  daysBeforeYear d.year + daysThrough d.year (d.month - 1) + d.day

instance : LT Date := ⟨fun a b => a.ordinal < b.ordinal⟩
instance : LE Date := ⟨fun a b => a.ordinal ≤ b.ordinal⟩
instance (a b : Date) : Decidable (a < b) := inferInstanceAs (Decidable (a.ordinal < b.ordinal))
instance (a b : Date) : Decidable (a ≤ b) := inferInstanceAs (Decidable (a.ordinal ≤ b.ordinal))

/-- The day after, unless this is the last day of year 9999. -/
def next? (d : Date) : Option Date :=
  if d.day < daysInMonth d.year d.month then of? d.year d.month (d.day + 1)
  else if d.month < 12 then of? d.year (d.month + 1) 1
  else of? (d.year + 1) 1 1

/-- The year in which the day with this number falls. -/
def yearOfOrdinal (n : Nat) : Nat :=
  let guess := n * 400 / 146097 + 1
  if n ≤ daysBeforeYear guess then guess - 1
  else if daysBeforeYear (guess + 1) < n then guess + 1
  else guess

/-- The month and the day of the month, `n` days into the given months of the year. -/
def monthAndDay? (year : Nat) : List Nat → Nat → Option (Nat × Nat)
  | [], _ => none
  | month :: months, n =>
    if n ≤ daysInMonth year month then some (month, n)
    else monthAndDay? year months (n - daysInMonth year month)

/-- The day with this number. -/
def ofOrdinal? (n : Nat) : Option Date :=
  let year := yearOfOrdinal n
  (monthAndDay? year (List.range' 1 12) (n - daysBeforeYear year)).bind fun (month, day) =>
    of? year month day

/-- The number of the Monday of the week that holds the year's first Thursday. -/
def firstMonday (year : Nat) : Nat :=
  let newYear := daysBeforeYear year + 1
  let weekday := (newYear + 6) % 7
  if 3 < weekday then newYear + 7 - weekday else newYear - weekday

/-- How many weeks the year has when each week belongs to the year of its Thursday. -/
def weeksInYear (year : Nat) : Nat :=
  let weekday := (daysBeforeYear year + 7) % 7
  if weekday = 3 || (weekday = 2 && isLeapYear year) then 53 else 52

/-- The day of a week, where the weeks of a year are counted from 1 and Monday is 1. -/
def ofWeek? (year week weekday : Nat) : Option Date :=
  if 1 ≤ year ∧ year ≤ 9999 ∧ 1 ≤ week ∧ week ≤ weeksInYear year ∧ 1 ≤ weekday ∧ weekday ≤ 7 then
    ofOrdinal? (firstMonday year + (week - 1) * 7 + (weekday - 1))
  else none

/-- The date as `YYYY-MM-DD`. -/
def iso (d : Date) : Text :=
  Text.fixedDigits 10 4 d.year ++ ['-'] ++ Text.fixedDigits 10 2 d.month ++ ['-'] ++
    Text.fixedDigits 10 2 d.day

/-- The numbers of a date in the calendar name that date. -/
theorem of?_self (d : Date) : of? d.year d.month d.day = some d := by
  simp [of?, d.valid]

theorem of?_eq_some_iff {year month day : Nat} {d : Date} :
    of? year month day = some d ↔ d.year = year ∧ d.month = month ∧ d.day = day := by
  constructor
  · intro h
    unfold of? at h
    split at h
    · obtain rfl := Option.some.inj h
      exact ⟨rfl, rfl, rfl⟩
    · exact absurd h (by simp)
  · rintro ⟨rfl, rfl, rfl⟩
    exact of?_self d

end Date

end Checklist
