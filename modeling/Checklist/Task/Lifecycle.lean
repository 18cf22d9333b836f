import Checklist.Task.Codec

/-!
# The life of a task — created, changed, moved from status to status

Every step writes the task's line anew. Moving a task to done puts down the day, and moving it away
from done takes the day back; other edits leave the dates as they are given.
-/

namespace Checklist

/-- The description of a new task that was given none. -/
def newDescription : Text := "New Task".toList

/-- The id of a task that no store has seen yet, told apart from others by a number. -/
def placeholderId (serial : Nat) : Text := "temp_".toList ++ Text.fixedDigits 16 12 serial

/-- What a new task is made of. -/
structure Draft where
  description : Text := []
  status : Status := .todo
  priority : Priority := .low
  dates : TaskDates := {}
  tags : List Text := []
  dependencies : List Text := []
  recurrence : Option Recurrence := none
  path : Option Text := none
  created : Option Text := none
  updated : Option Text := none
  indent : Text := []

/-- The edits of one step: a field that is not named stays as it is. -/
structure Changes where
  id : Option Text := none
  description : Option Text := none
  status : Option Status := none
  priority : Option Priority := none
  dates : Option TaskDates := none
  tags : Option (List Text) := none
  dependencies : Option (List Text) := none
  recurrence : Option (Option Recurrence) := none
  path : Option (Option Text) := none
  created : Option (Option Text) := none
  updated : Option (Option Text) := none
  indent : Option Text := none

namespace Task

/-- The task with its line written anew. -/
def rendered (codec : Codec) (t : Task) : Task := { t with sourceText := codec.format t }

/-- A new task under the given id. A done one without a date is done today. -/
def create (codec : Codec) (today : Option Date) (id : Text) (draft : Draft) : Task :=
  let dates :=
    if draft.status = .done ∧ draft.dates.done.all List.isEmpty then
      { draft.dates with done := some (today.getD codec.today).iso }
    else draft.dates
  rendered codec {
    id
    description := if draft.description.isEmpty then newDescription else draft.description
    status := draft.status
    priority := draft.priority
    dates
    tags := draft.tags
    dependencies := draft.dependencies
    recurrence := draft.recurrence
    path := draft.path
    created := draft.created
    updated := draft.updated
    indent := draft.indent }

/-- The task with the edits put in, its dates and line not yet adapted. -/
def edited (t : Task) (changes : Changes) : Task :=
  { t with
    id := changes.id.getD t.id
    description := changes.description.getD t.description
    status := changes.status.getD t.status
    priority := changes.priority.getD t.priority
    dates := changes.dates.getD t.dates
    tags := changes.tags.getD t.tags
    dependencies := changes.dependencies.getD t.dependencies
    recurrence := changes.recurrence.getD t.recurrence
    path := changes.path.getD t.path
    created := changes.created.getD t.created
    updated := changes.updated.getD t.updated
    indent := changes.indent.getD t.indent }

/-- The task with the completion date that a move from status `before` asks for. -/
def stamped (before : Status) (today : Date) (t : Task) : Task :=
  if t.status = .done ∧ before ≠ .done then
    { t with dates := { t.dates with done := some today.iso } }
  else if t.status ≠ .done ∧ before = .done then
    { t with dates := { t.dates with done := none } }
  else t

/-- The task after the edits. -/
def update (codec : Codec) (today : Option Date) (changes : Changes) (t : Task) : Task :=
  rendered codec (stamped t.status (today.getD codec.today) (t.edited changes))

/-- The task moved to a status. -/
def setStatus (codec : Codec) (today : Option Date) (status : Status) (t : Task) : Task :=
  t.update codec today { status := some status }

/-- The task moved to the next status. -/
def cycleStatus (codec : Codec) (today : Option Date) (t : Task) : Task :=
  t.setStatus codec today t.status.next

end Task

end Checklist
