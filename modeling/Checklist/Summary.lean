import Checklist.Task.Basic
import Checklist.Calendar.IsoDate
import Checklist.Number.Rounding
import Checklist.Text.Order

/-!
# Summaries — tasks counted by status, by tag and by project

The project of a task is its first tag; tasks without tags belong to a project of their own.
-/

namespace Checklist

/-- How many tasks there are of each kind. -/
structure Summary where
  total : Nat
  completed : Nat
  inProgress : Nat
  todo : Nat
  cancelled : Nat
  overdue : Nat
  /-- The share of completed tasks in percent, rounded. -/
  completionRate : Int
  deriving DecidableEq

/-- Whether the task should have been done before `today`: it is not done, and its due date is a day
before. -/
def Task.isOverdue (t : Task) (today : Date) : Bool :=
  t.status ≠ .done && (t.dates.due.bind Date.ofIso?).any (· < today)

/-- How many of the tasks have the status. -/
def countStatus (status : Status) (tasks : List Task) : Nat := tasks.countP (·.status = status)

/-- The share in percent. The quotient and its product with a hundred are each rounded to binary
precision, then the result to a whole number. -/
def percentage (part total : Nat) : Int :=
  if total = 0 then 0
  else
    let share := Rounding.nearestBinary ((part : Rat) / (total : Rat))
    Rounding.nearestInt (Rounding.nearestBinary (share * 100))

/-- The counts over the tasks on the day `today`. -/
def summarize (tasks : List Task) (today : Date) : Summary where
  total := tasks.length
  completed := countStatus .done tasks
  inProgress := countStatus .inProgress tasks
  todo := countStatus .todo tasks
  cancelled := countStatus .cancelled tasks
  overdue := tasks.countP (·.isOverdue today)
  completionRate := percentage (countStatus .done tasks) tasks.length

/-- Every tag of the tasks once, in the order of their characters. -/
def allTags (tasks : List Task) : List Text :=
  ((tasks.flatMap Task.tags).mergeSort Text.le).eraseReps

/-- The project of the tasks without tags. -/
def noProject : Text := "No Project".toList

/-- The name of the task's project. -/
def Task.project (t : Task) : Text := t.tags.head?.getD noProject

/-- The counts of one project. -/
structure ProjectSummary where
  name : Text
  /-- The tag of the project, empty when it has none. -/
  tag : Text
  taskCount : Nat
  completedCount : Nat
  deriving DecidableEq

/-- The counts of the project with that name before any of its tasks is counted. -/
def ProjectSummary.ofName (name : Text) : ProjectSummary :=
  ⟨name, if name = noProject then [] else name, 0, 0⟩

/-- The counts with one task more. -/
def ProjectSummary.add (p : ProjectSummary) (t : Task) : ProjectSummary :=
  { p with
    taskCount := p.taskCount + 1
    completedCount := if t.status = .done then p.completedCount + 1 else p.completedCount }

/-- The projects with the task counted in its own, which comes last when it is new. -/
def addToProject (t : Task) : List ProjectSummary → List ProjectSummary
  | [] => [(ProjectSummary.ofName t.project).add t]
  | p :: projects =>
    if p.name = t.project then p.add t :: projects else p :: addToProject t projects

/-- The counts of every project, one task after the other being counted. -/
def summarizeProjects (tasks : List Task) : List ProjectSummary :=
  tasks.foldl (fun projects t => addToProject t projects) []

end Checklist
