import Checklist.Text.Blank

/-!
# Tasks — what a checklist item says

A `Task` holds everything that one line of a checklist says about a thing to do, and where the line
came from. Dates are kept as they were written, so a task can hold a date that no calendar knows.
`Task.normal` forgets what does not matter for the meaning: the source line, and how the words of
the description are spaced; two tasks with the same normal form are equivalent.
-/

namespace Checklist

/-- How far a task has come. -/
inductive Status where
  | todo
  | inProgress
  | done
  | cancelled
  deriving DecidableEq

/-- How pressing a task is. -/
inductive Priority where
  | high
  | medium
  | low
  deriving DecidableEq

/-- Whether the tags of a note are closed by a second sign, `#tag#`, or not, `#tag`. -/
inductive TagStyle where
  | wrapped
  | bare
  deriving DecidableEq

/-- What a date of a task says. -/
inductive DateKind where
  | due
  | start
  | scheduled
  | done
  | cancelled
  deriving DecidableEq

namespace Status

/-- The word for the status. -/
def name : Status → Text
  | .todo => "todo".toList
  | .inProgress => "in_progress".toList
  | .done => "done".toList
  | .cancelled => "cancelled".toList

/-- Every status. -/
def all : List Status := [.todo, .inProgress, .done, .cancelled]

/-- The status with that name. -/
def ofName? (name : Text) : Option Status := all.find? (·.name = name)

/-- The next status when one is stepped through: the first three in turn, and back to the first. -/
def next : Status → Status
  | .todo => .inProgress
  | .inProgress => .done
  | .done => .todo
  | .cancelled => .todo

end Status

namespace Priority

/-- The word for the priority. -/
def name : Priority → Text
  | .high => "high".toList
  | .medium => "medium".toList
  | .low => "low".toList

/-- Every priority. -/
def all : List Priority := [.high, .medium, .low]

/-- The priority with that name. -/
def ofName? (name : Text) : Option Priority := all.find? (·.name = name)

/-- The place of the priority in an order where more pressing is greater. -/
def rank : Priority → Nat
  | .high => 3
  | .medium => 2
  | .low => 1

end Priority

namespace TagStyle

/-- The word for the style. -/
def name : TagStyle → Text
  | .wrapped => "wrapped".toList
  | .bare => "bare".toList

/-- Every style. -/
def all : List TagStyle := [.wrapped, .bare]

/-- The style with that name. -/
def ofName? (name : Text) : Option TagStyle := all.find? (·.name = name)

end TagStyle

namespace DateKind

/-- The word for the kind of date. -/
def name : DateKind → Text
  | .due => "due".toList
  | .start => "start".toList
  | .scheduled => "scheduled".toList
  | .done => "done".toList
  | .cancelled => "cancelled".toList

/-- Every kind of date. -/
def all : List DateKind := [.due, .start, .scheduled, .done, .cancelled]

end DateKind

/-- The dates of a task, at most one of each kind. -/
structure TaskDates where
  due : Option Text := none
  start : Option Text := none
  scheduled : Option Text := none
  done : Option Text := none
  cancelled : Option Text := none
  deriving DecidableEq

namespace TaskDates

/-- The date of that kind. -/
def get (dates : TaskDates) : DateKind → Option Text
  | .due => dates.due
  | .start => dates.start
  | .scheduled => dates.scheduled
  | .done => dates.done
  | .cancelled => dates.cancelled

/-- The dates with the one of that kind put in its place. -/
def set (dates : TaskDates) (kind : DateKind) (date : Option Text) : TaskDates :=
  match kind with
  | .due => { dates with due := date }
  | .start => { dates with start := date }
  | .scheduled => { dates with scheduled := date }
  | .done => { dates with done := date }
  | .cancelled => { dates with cancelled := date }

/-- Putting a date in its place changes that kind alone. -/
theorem get_set (dates : TaskDates) (kind other : DateKind) (date : Option Text) :
    (dates.set kind date).get other = if other = kind then date else dates.get other := by
  cases kind <;> cases other <;> rfl

end TaskDates

/-- When a task comes back after it was done. -/
structure Recurrence where
  rule : Text
  /-- Whether the rule counts from the day the task was done. -/
  fromDone : Bool
  deriving DecidableEq

/-- Where a line is stored and when it was written. -/
structure Provenance where
  path : Option Text := none
  created : Option Text := none
  updated : Option Text := none
  deriving DecidableEq

/-- The description of a task that was given none. -/
def untitled : Text := "Untitled Task".toList

/-- One item of a checklist. -/
structure Task where
  id : Text
  description : Text := untitled
  status : Status := .todo
  priority : Priority := .low
  dates : TaskDates := {}
  tags : List Text := []
  dependencies : List Text := []
  recurrence : Option Recurrence := none
  /-- The line that the task was read from, or the last one that was written for it. -/
  sourceText : Text := []
  path : Option Text := none
  created : Option Text := none
  updated : Option Text := none
  /-- The blanks before the item. -/
  indent : Text := []
  deriving DecidableEq

namespace Task

/-- Where the task's line is stored and when it was written. -/
def provenance (t : Task) : Provenance := ⟨t.path, t.created, t.updated⟩

/-- The task without its source line and with single spaces in its description. -/
def normal (t : Task) : Task :=
  { t with description := Text.collapse t.description, sourceText := [] }

/-- Whether two tasks say the same. -/
def Equivalent (a b : Task) : Prop := a.normal = b.normal

instance (a b : Task) : Decidable (Equivalent a b) :=
  inferInstanceAs (Decidable (a.normal = b.normal))

end Task

end Checklist
