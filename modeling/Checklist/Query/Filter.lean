import Checklist.Query.Glob
import Checklist.Query.Spec
import Checklist.Task.Basic

/-!
# Filtering — the tasks that a specification lets through

A specification is a list of named tests, one for each filter that it sets. A task is let through
when it passes them all; how many are left after each test is told by `filterCounts`.
-/

namespace Checklist

open Text

/-- Whether some tag of the task contains the term, ignoring case. -/
def Task.hasTagLike (t : Task) (term : Text) : Bool :=
  t.tags.any fun tag => occursIn (lower term) (lower tag)

/-- Whether the text, in lower case, stands in the description or a tag of the task. -/
def Task.mentions (t : Task) (text : Text) : Bool :=
  occursIn text (lower t.description) || t.tags.any fun tag => occursIn text (lower tag)

/-- A test of a task, under the name of the filter it belongs to. -/
structure NamedTest where
  name : Text
  passes : Task → Bool

namespace Spec

/-- The tests of the filters that are set. -/
def tests (spec : Spec) : List NamedTest :=
  let list (name : String) (items : Option (List Text)) (test : List Text → Task → Bool) :=
    match items with
    | some (item :: rest) => [⟨name.toList, test (item :: rest)⟩]
    | _ => []
  list "status" spec.statusIn (fun names t => names.contains t.status.name) ++
  list "priority" spec.priorityIn (fun names t => names.contains t.priority.name) ++
  list "tag" spec.tagsInclude (fun terms t => terms.any t.hasTagLike) ++
  list "-tag" spec.tagsExclude (fun terms t => !terms.any t.hasTagLike) ++
  (match trim (spec.freeText.getD []) with
    | [] => []
    | c :: s => [⟨"text".toList, fun t => t.mentions (lower (c :: s))⟩]) ++
  (match spec.pathGlob with
    | some (c :: s) => [⟨"path".toList, fun t => t.path.any (Glob.isMatch (c :: s))⟩]
    | _ => []) ++
  spec.dueWindow.toList.map (fun w => ⟨"due".toList, fun t => w.contains t.dates.due⟩) ++
  spec.startsWindow.toList.map (fun w => ⟨"starts".toList, fun t => w.contains t.dates.start⟩)

end Spec

/-- The tasks that pass every test of the specification. -/
def filterTasks (tasks : List Task) (spec : Spec) : List Task :=
  spec.tests.foldl (fun left test => left.filter test.passes) tasks

/-- After each test, under its name, how many tasks are left. -/
def filterCounts (tasks : List Task) (spec : Spec) : List (Text × Nat) :=
  go tasks spec.tests
where
  /-- The counts of the tests that are still to come. -/
  go (left : List Task) : List NamedTest → List (Text × Nat)
    | [] => []
    | test :: tests =>
      (test.name, (left.filter test.passes).length) :: go (left.filter test.passes) tests

end Checklist
