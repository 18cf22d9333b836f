import Checklist.Calendar.Date
import Checklist.Text.Utf8

/-!
# ISO 8601 dates — reading a calendar date or a week date

A date is written `YYYY-MM-DD` or as a day of a week, `YYYY-Www-D` or `YYYY-Www` for its Monday;
each form may also go without its hyphens. Only the digits `0` to `9` count. A whole text is a date
when it takes seven, eight or ten bytes; in the two compact forms of eight characters the last two
of ten bytes are not looked at.
-/

namespace Checklist

/-- The number that `width` more digits at the start of the text write behind those of `n`, and what
follows them. -/
def takeDigitsFrom? : (width n : Nat) → Text → Option (Nat × Text)
  | 0, n, s => some (n, s)
  | _ + 1, _, [] => none
  | width + 1, n, c :: s =>
    match Text.asciiDigit? c with
    | some v => takeDigitsFrom? width (n * 10 + v) s
    | none => none

/-- The number written by exactly `width` digits at the start of the text, and what follows. -/
def takeDigits? (width : Nat) (s : Text) : Option (Nat × Text) := takeDigitsFrom? width 0 s

namespace Date

/-- The weekday that ends a week date, and what follows; nothing at all means Monday. -/
def takeWeekday? (hyphenated : Bool) : Text → Option (Nat × Text)
  | [] => some (1, [])
  | c :: s =>
    if hyphenated then (if c = '-' then takeDigits? 1 s else none) else takeDigits? 1 (c :: s)

/-- The date at the start of the text, and what follows it. -/
def take? (s : Text) : Option (Date × Text) := do
  let (year, s) ← takeDigits? 4 s
  let (hyphenated, s) := match s with
    | '-' :: s => (true, s)
    | s => (false, s)
  match s with
  | 'W' :: s =>
    let (week, s) ← takeDigits? 2 s
    let (weekday, s) ← takeWeekday? hyphenated s
    let date ← ofWeek? year week weekday
    some (date, s)
  | s =>
    let (month, s) ← takeDigits? 2 s
    let s ← if hyphenated then Text.dropStart? ['-'] s else some s
    let (day, s) ← takeDigits? 2 s
    let date ← of? year month day
    some (date, s)

/-- The date that the whole text writes. -/
def ofIso? (s : Text) : Option Date :=
  let size := (Utf8.encode s).length
  if size = 7 ∨ size = 8 ∨ size = 10 then (take? s).map Prod.fst else none

end Date

end Checklist
