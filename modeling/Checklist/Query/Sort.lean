import Checklist.Query.Filter
import Checklist.Calendar.Moment
import Checklist.Text.Order

/-!
# Sorting — tasks in order, and the answer to a query

Tasks are put in order by one key, and tasks with equal keys stay in the order they came in,
whichever end comes first. A missing date counts as the last day of the calendar. The answer to a
query is filtered, then sorted, then cut off at its bound.
-/

namespace Checklist

/-- What a task is sorted by. -/
inductive SortKey where
  | text (value : Text)
  | number (value : Rat)
  deriving DecidableEq

/-- Whether the first key does not come after the second. -/
def SortKey.le : SortKey → SortKey → Bool
  | .text a, .text b => Text.le a b
  | .number a, .number b => decide (a ≤ b)
  | .text _, .number _ => true
  | .number _, .text _ => false

/-- The date that stands for a missing one. -/
def missingDate : Text := "9999-12-31".toList

/-- The key of a date: its text, or the stand-in when it is missing or empty. -/
def dateKey (date : Option Text) : SortKey :=
  match date with
  | some (c :: s) => .text (c :: s)
  | _ => .text missingDate

/-- The key of a task in an order by this field. -/
def SortField.key (field : SortField) (t : Task) : SortKey :=
  match field with
  | .due => dateKey t.dates.due
  | .start => dateKey t.dates.start
  | .priority => .number t.priority.rank
  | .created => .number (secondsOf t.created)
  | .updated => .number (secondsOf t.updated)
  | .content => .text t.description

/-- Whether the first task may stand before the second. -/
def SortSpec.le (sort : SortSpec) (a b : Task) : Bool :=
  match sort.direction with
  | .ascending => (sort.field.key a).le (sort.field.key b)
  | .descending => (sort.field.key b).le (sort.field.key a)

/-- The tasks in order. -/
def sortTasks (tasks : List Task) (sort : SortSpec) : List Task := tasks.mergeSort sort.le

/-- The tasks up to the bound, which counts only when it is positive. -/
def limitTasks (tasks : List Task) (limit : Option Int) : List Task :=
  match limit with
  | some n => if 0 < n then tasks.take n.toNat else tasks
  | none => tasks

/-- The answer to a query. -/
def applyQuery (tasks : List Task) (spec : Spec) : List Task :=
  let found := filterTasks tasks spec
  limitTasks (spec.sort.elim found (sortTasks found)) spec.limit

end Checklist
