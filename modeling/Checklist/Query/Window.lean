import Checklist.Calendar.IsoDate
import Checklist.Text.Blank
import Checklist.Text.Lowercase

/-!
# Date windows — the days that a date directive allows

A window is a stretch of days, its first day included and its end excluded; either side may be open.
`DateWindow.ofText?` reads one from the value of a directive: a day, the days before one, the days
after one, or the words for today and tomorrow. Only the two words can fail, when the day they need
lies beyond the calendar.
-/

namespace Checklist

/-- The days from `after` on and before `before`; a side that is not set is open. -/
structure DateWindow where
  after : Option Date := none
  before : Option Date := none
  deriving DecidableEq

/-- A day beyond the end of the calendar was needed. -/
structure DateOverflow where
  deriving DecidableEq

/-- The wording of the error. -/
def DateOverflow.message (_ : DateOverflow) : Text := "date value out of range".toList

namespace DateWindow

/-- Whether the day lies in the window. -/
def containsDay (w : DateWindow) (day : Date) : Bool :=
  w.after.all (· ≤ day) && w.before.all (day < ·)

/-- Whether the text is a date in the window. -/
def contains (w : DateWindow) (written : Option Text) : Bool :=
  (written.bind Date.ofIso?).any w.containsDay

/-- The window of one day, unless that is the last day of the calendar. -/
def only? (day : Date) : Option DateWindow :=
  day.next?.map fun next => ⟨some day, some next⟩

/-- Whether the text has the shape `YYYY-MM-DD`, in the digits of any script. -/
def hasDateShape : Text → Bool
  | [y₁, y₂, y₃, y₄, h₁, m₁, m₂, h₂, d₁, d₂] =>
    [y₁, y₂, y₃, y₄, m₁, m₂, d₁, d₂].all Text.isDigit && h₁ = '-' && h₂ = '-'
  | _ => false

/-- The date written as `YYYY-MM-DD` between blanks. -/
def day? (value : Text) : Option Date :=
  if hasDateShape (Text.trim value) then Date.ofIso? (Text.trim value) else none

/-- The window of one day, or the failure to know the day after it. -/
def onlyOrOverflow (day : Option Date) : Except DateOverflow (Option DateWindow) :=
  match day.bind only? with
  | some w => .ok (some w)
  | none => .error ⟨⟩

/-- The window that the value of a date directive describes, if it describes one. -/
def ofText? (value : Text) (today : Date) : Except DateOverflow (Option DateWindow) :=
  let token := Text.lower (Text.trim value)
  if token = "today".toList then onlyOrOverflow (some today)
  else if token = "tomorrow".toList then onlyOrOverflow today.next?
  else match token with
    | '<' :: date => .ok ((day? date).map fun day => ⟨none, some day⟩)
    | '>' :: date => .ok (((day? date).bind Date.next?).map fun next => ⟨some next, none⟩)
    | date => .ok ((day? date).bind only?)

end DateWindow

end Checklist
