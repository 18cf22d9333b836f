import Checklist.Task.Basic
import Checklist.Json.Choice

/-!
# Tasks as JSON documents

A task is written as an object with all of its members, except that of the dates only those that are
set appear. Reading asks for the `id` alone; every other member has a default, and members it does
not know are passed over.
-/

namespace Checklist

namespace TaskDates

/-- The dates that are set, by the name of their kind. -/
def toJson (dates : TaskDates) : Json :=
  .record (DateKind.all.filterMap fun kind => (dates.get kind).map fun d => (kind.name, .text d))

/-- The dates of the known kinds. -/
def ofJson (value : Json) : TaskDates :=
  DateKind.all.foldl
    (fun dates kind => dates.set kind ((value.member? kind.name).bind Json.text?)) {}

end TaskDates

/-- Why a value is no task. -/
inductive DecodeError where
  /-- A member that must be there is not. -/
  | missing (member : Text)
  /-- A member is none of the words it should be one of. -/
  | unknown (choice : UnknownChoice)

/-- The wording of the error. -/
def DecodeError.message : DecodeError → Text
  | .missing member => Text.quoted member
  | .unknown choice => choice.message

/-- The status that the value names. -/
def Status.ofJson (value : Json) : Except DecodeError Status :=
  (value.choose "TaskStatus".toList Status.ofName?).mapError .unknown

/-- The priority that the value names. -/
def Priority.ofJson (value : Json) : Except DecodeError Priority :=
  (value.choose "TaskPriority".toList Priority.ofName?).mapError .unknown

/-- The tag style that the value names. -/
def TagStyle.ofJson (value : Json) : Except DecodeError TagStyle :=
  (value.choose "TagStyle".toList TagStyle.ofName?).mapError .unknown

namespace Recurrence

/-- The recurrence as an object of two members. -/
def toJson (r : Recurrence) : Json :=
  .record [("rule".toList, .text r.rule), ("base_on_done_date".toList, .bool r.fromDone)]

/-- The recurrence that the value describes; nothing at all and an empty object describe none. -/
def ofJson (value : Json) : Except DecodeError (Option Recurrence) :=
  if !value.isGiven then .ok none
  else match value.member? "rule".toList with
    | none => .error (.missing "rule".toList)
    | some rule =>
      let fromDone := (value.member? "base_on_done_date".toList).elim false Json.isGiven
      .ok (some ⟨(rule.text?).getD [], fromDone⟩)

end Recurrence

namespace Task

/-- The task as an object with all of its members. -/
def toJson (t : Task) : Json :=
  .record [
    ("id".toList, .text t.id),
    ("description".toList, .text t.description),
    ("status".toList, .text t.status.name),
    ("priority".toList, .text t.priority.name),
    ("dates".toList, t.dates.toJson),
    ("tags".toList, .ofTexts t.tags),
    ("dependencies".toList, .ofTexts t.dependencies),
    ("recurrence".toList, t.recurrence.elim .null Recurrence.toJson),
    ("source_text".toList, .text t.sourceText),
    ("path".toList, .ofText? t.path),
    ("created".toList, .ofText? t.created),
    ("updated".toList, .ofText? t.updated),
    ("indent".toList, .text t.indent)]

/-- The task that the value describes. -/
def ofJson (value : Json) : Except DecodeError Task := do
  let member (name : String) : Option Json := value.member? name.toList
  let text (name : String) : Option Text := (member name).bind Json.text?
  let id ← match member "id" with
    | some id => .ok (id.text?.getD [])
    | none => .error (.missing "id".toList)
  let status ← Status.ofJson ((member "status").getD (.text Status.todo.name))
  let priority ← Priority.ofJson ((member "priority").getD (.text Priority.low.name))
  let recurrence ← Recurrence.ofJson ((member "recurrence").getD .null)
  .ok {
    id, status, priority, recurrence
    description := (text "description").getD untitled
    dates := TaskDates.ofJson ((member "dates").getD .null)
    tags := ((member "tags").getD .null).texts
    dependencies := ((member "dependencies").getD .null).texts
    sourceText := (text "source_text").getD []
    path := text "path"
    created := text "created"
    updated := text "updated"
    indent := (text "indent").getD [] }

end Task

end Checklist
