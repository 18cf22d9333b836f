import Checklist.Task.Basic

/-!
# Markers — the signs that carry a task's data inside its line
-/

namespace Checklist.Marker

/-- The sign before the name of a task that must be done first. -/
def dependency : Char := '⛔'

/-- The sign before the rule by which a task comes back. -/
def recurrence : Char := '🔁'

/-- The sign around or before a tag. -/
def tag : Char := '#'

/-- A character that may follow a sign to ask for its coloured form, and says nothing itself. -/
def selector : Char := '\ufe0f'

end Checklist.Marker

namespace Checklist

/-- The sign of a priority; the lowest has none. -/
def Priority.marker? : Priority → Option Char
  | .high => some '⏫'
  | .medium => some '🔼'
  | .low => none

/-- The sign before a date of that kind. -/
def DateKind.marker : DateKind → Char
  | .due => '📅'
  | .start => '🛫'
  | .scheduled => '⏳'
  | .done => '✅'
  | .cancelled => '❌'

/-- The kind of date that the sign announces. -/
def DateKind.ofMarker? (c : Char) : Option DateKind := DateKind.all.find? (·.marker = c)

/-- Whether the character is the sign of a priority. -/
def isPriorityMarker (c : Char) : Bool := Priority.all.any (·.marker? = some c)

/-- Whether a recurrence rule ends before this character: any of the signs. -/
def endsRule (c : Char) : Bool :=
  c = Marker.tag || c = Marker.dependency || c = Marker.recurrence ||
    (DateKind.ofMarker? c).isSome || isPriorityMarker c

/-- The status that a mark between the brackets stands for; an unknown mark says nothing. -/
def Status.ofMark (mark : Char) : Status :=
  if mark = '/' then .inProgress
  else if mark = 'x' ∨ mark = 'X' then .done
  else if mark = '-' then .cancelled
  else .todo

/-- The mark that is written for a status. -/
def Status.mark : Status → Char
  | .todo => ' '
  | .inProgress => '/'
  | .done => 'x'
  | .cancelled => '-'

/-- A written mark is read as the status it was written for. -/
theorem Status.ofMark_mark (s : Status) : Status.ofMark s.mark = s := by
  cases s <;> decide

/-- A sign announces the kind of date that it is written for. -/
theorem DateKind.ofMarker?_marker (kind : DateKind) : ofMarker? kind.marker = some kind := by
  cases kind <;> decide

end Checklist
