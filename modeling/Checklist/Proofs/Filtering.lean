import Checklist.Proofs.DateWindows
import Checklist.Proofs.Globs
import Checklist.Query.Filter

/-!
# Filtering — the tasks that a specification admits

A task is admitted when it meets every filter that is set, each with its own notion of being set: a
list that holds something, a text that is not blank, a pattern that is not empty, and a window as
such, be it open on both sides (`Spec.Admits`). The tests of a specification are passed by just
these tasks, which is shown for each kind of filter (`passes_tests_iff`). To filter by one test
after the other is to filter by all of them at once (`foldl_filter`), so the admitted tasks are left
in their order and number, and specifications filter in any order
(`filterTasks_eq_filter_admits`).
-/

namespace Checklist

open Text

/-- Some tag contains one of the terms, ignoring case. -/
def Task.TaggedLike (t : Task) (terms : List Text) : Prop :=
  ∃ term ∈ terms, ∃ tag ∈ t.tags, lower term <:+: lower tag

/-- The text stands in the description or in a tag, ignoring case. -/
def Task.Shows (t : Task) (text : Text) : Prop :=
  lower text <:+: lower t.description ∨ ∃ tag ∈ t.tags, lower text <:+: lower tag

/-- The date is written down, is a day of the calendar and lies in the window: it does not come
before the first day and comes before the end. -/
def DateWindow.Admits (w : DateWindow) (date : Option Text) : Prop :=
  ∃ written day, date = some written ∧ Date.ofIso? written = some day ∧
    (∀ after, w.after = some after → ¬ day.Before after) ∧
    ∀ before, w.before = some before → day.Before before

/-- The task meets every filter that the specification sets. -/
structure Spec.Admits (spec : Spec) (t : Task) : Prop where
  status : ∀ names, spec.statusIn = some names → names ≠ [] → t.status.name ∈ names
  priority : ∀ names, spec.priorityIn = some names → names ≠ [] → t.priority.name ∈ names
  tagged : ∀ terms, spec.tagsInclude = some terms → terms ≠ [] → t.TaggedLike terms
  untagged : ∀ terms, spec.tagsExclude = some terms → terms ≠ [] → ¬ t.TaggedLike terms
  text : ∀ text, spec.freeText = some text → (∃ c ∈ text, isBlank c = false) → t.Shows (trim text)
  path : ∀ pattern, spec.pathGlob = some pattern → pattern ≠ [] →
    ∃ path, t.path = some path ∧ Glob.Fits pattern path
  due : ∀ w, spec.dueWindow = some w → w.Admits t.dates.due
  starts : ∀ w, spec.startsWindow = some w → w.Admits t.dates.start

/-! ## One filter -/

variable {t : Task}

theorem occursIn_iff_infix {part s : Text} : occursIn part s = true ↔ part <:+: s := by
  rw [occursIn_iff]
  constructor
  · rintro ⟨u, v, rfl⟩
    exact ⟨u, v, rfl⟩
  · rintro ⟨u, v, h⟩
    exact ⟨u, v, h.symm⟩

theorem any_hasTagLike_iff {terms : List Text} :
    terms.any t.hasTagLike = true ↔ t.TaggedLike terms := by
  simp only [List.any_eq_true, Task.hasTagLike, occursIn_iff_infix, Task.TaggedLike]

theorem not_any_hasTagLike_iff {terms : List Text} :
    (!terms.any t.hasTagLike) = true ↔ ¬ t.TaggedLike terms := by
  rw [Bool.not_eq_true', ← Bool.not_eq_true, any_hasTagLike_iff]

theorem mentions_iff {text : Text} :
    t.mentions (lower text) = true ↔ t.Shows text := by
  simp only [Task.mentions, Bool.or_eq_true, List.any_eq_true, occursIn_iff_infix, Task.Shows]

theorem any_isMatch_iff {pattern : Text} {path : Option Text} :
    path.any (Glob.isMatch pattern) = true ↔
      ∃ written, path = some written ∧ Glob.Fits pattern written := by
  simp only [Option.any_eq_true, Glob.isMatch_iff_fits]

theorem contains_iff_admits {w : DateWindow} {date : Option Text} :
    w.contains date = true ↔ w.Admits date := by
  rw [DateWindow.contains_eq_true_iff]
  constructor
  · rintro ⟨day, hday, hcontains⟩
    obtain ⟨written, rfl, hwritten⟩ := Option.bind_eq_some_iff.mp hday
    obtain ⟨hafter, hbefore⟩ := DateWindow.containsDay_eq_true_iff.mp hcontains
    exact ⟨written, day, rfl, hwritten, hafter, hbefore⟩
  · rintro ⟨written, day, rfl, hwritten, hafter, hbefore⟩
    exact ⟨day, hwritten, DateWindow.containsDay_eq_true_iff.mpr ⟨hafter, hbefore⟩⟩

/-! ## All filters -/

/-- The test of a list, which is not set unless the list holds something. -/
def listTests (name : String) (items : Option (List Text)) (test : List Text → Task → Bool) :
    List NamedTest :=
  match items with
  | some (item :: rest) => [⟨name.toList, test (item :: rest)⟩]
  | _ => []

/-- The test of a text to look for, which is not set when it is blank. -/
def textTests (text : Option Text) : List NamedTest :=
  match trim (text.getD []) with
  | [] => []
  | c :: s => [⟨"text".toList, fun t => t.mentions (lower (c :: s))⟩]

/-- The test of a pattern, which is not set when it is empty. -/
def patternTests (pattern : Option Text) : List NamedTest :=
  match pattern with
  | some (c :: s) => [⟨"path".toList, fun t => t.path.any (Glob.isMatch (c :: s))⟩]
  | _ => []

/-- The test of a window. -/
def windowTests (name : String) (window : Option DateWindow) (date : Task → Option Text) :
    List NamedTest :=
  window.toList.map fun w => ⟨name.toList, fun t => w.contains (date t)⟩

/-- Every filter has its own tests. -/
theorem Spec.tests_eq (spec : Spec) : spec.tests =
    listTests "status" spec.statusIn (fun names t => names.contains t.status.name) ++
    listTests "priority" spec.priorityIn (fun names t => names.contains t.priority.name) ++
    listTests "tag" spec.tagsInclude (fun terms t => terms.any t.hasTagLike) ++
    listTests "-tag" spec.tagsExclude (fun terms t => !terms.any t.hasTagLike) ++
    textTests spec.freeText ++ patternTests spec.pathGlob ++
    windowTests "due" spec.dueWindow (·.dates.due) ++
    windowTests "starts" spec.startsWindow (·.dates.start) := rfl

theorem passes_listTests_iff {name : String} {items : Option (List Text)}
    {test : List Text → Task → Bool} :
    (∀ x ∈ listTests name items test, x.passes t = true) ↔
      ∀ names, items = some names → names ≠ [] → test names t = true := by
  match items with
  | none => simp [listTests]
  | some [] => simp [listTests]
  | some (item :: rest) => simp [listTests]

theorem passes_textTests_iff {text : Option Text} :
    (∀ x ∈ textTests text, x.passes t = true) ↔
      ∀ s, text = some s → (∃ c ∈ s, isBlank c = false) → t.Shows (trim s) := by
  cases text with
  | none => simp [textTests, show trim [] = [] from rfl]
  | some s =>
      have hblank : (∃ c ∈ s, isBlank c = false) ↔ trim s ≠ [] := by
        rw [ne_eq, trim_eq_nil_iff]
        simp
      simp only [Option.some.injEq, forall_eq', hblank]
      cases htrim : trim s with
      | nil => simp [textTests, htrim]
      | cons c rest => simp [textTests, htrim, mentions_iff]

theorem passes_patternTests_iff {pattern : Option Text} :
    (∀ x ∈ patternTests pattern, x.passes t = true) ↔
      ∀ s, pattern = some s → s ≠ [] → ∃ path, t.path = some path ∧ Glob.Fits s path := by
  match pattern with
  | none => simp [patternTests]
  | some [] => simp [patternTests]
  | some (c :: s) => simp [patternTests, any_isMatch_iff]

theorem passes_windowTests_iff {name : String} {window : Option DateWindow}
    {date : Task → Option Text} :
    (∀ x ∈ windowTests name window date, x.passes t = true) ↔
      ∀ w, window = some w → w.Admits (date t) := by
  simp [windowTests, contains_iff_admits]

/-- A task passes the tests of a specification exactly when it meets its filters. -/
theorem passes_tests_iff {spec : Spec} :
    (∀ test ∈ spec.tests, test.passes t = true) ↔ spec.Admits t := by
  simp only [Spec.tests_eq, List.forall_mem_append, passes_listTests_iff, passes_textTests_iff,
    passes_patternTests_iff, passes_windowTests_iff, List.contains_iff_mem, any_hasTagLike_iff,
    not_any_hasTagLike_iff]
  constructor
  · rintro ⟨⟨⟨⟨⟨⟨⟨status, priority⟩, tagged⟩, untagged⟩, text⟩, path⟩, due⟩, starts⟩
    exact ⟨status, priority, tagged, untagged, text, path, due, starts⟩
  · rintro ⟨status, priority, tagged, untagged, text, path, due, starts⟩
    exact ⟨⟨⟨⟨⟨⟨⟨status, priority⟩, tagged⟩, untagged⟩, text⟩, path⟩, due⟩, starts⟩

instance (spec : Spec) (t : Task) : Decidable (spec.Admits t) :=
  decidable_of_iff (∀ test ∈ spec.tests, test.passes t = true) passes_tests_iff

/-- One test after the other lets through what all of them do. -/
theorem foldl_filter (tests : List NamedTest) (tasks : List Task) :
    tests.foldl (fun left test => left.filter test.passes) tasks =
      tasks.filter fun t => decide (∀ test ∈ tests, test.passes t = true) := by
  induction tests generalizing tasks with
  | nil => simp
  | cons test tests ih =>
      rw [List.foldl_cons, ih, List.filter_filter]
      refine List.filter_congr fun t _ => ?_
      simp [Bool.and_comm]

theorem filterTasks_eq_filter (tasks : List Task) (spec : Spec) :
    filterTasks tasks spec = tasks.filter (spec.Admits ·) := by
  rw [filterTasks, foldl_filter]
  refine List.filter_congr fun t _ => ?_
  simp only [passes_tests_iff]

/-- **What a filter leaves.** The tasks that the specification admits are left, in their order and
as often as they stand in the list, and no other. So of two specifications either may filter
first. -/
theorem filterTasks_eq_filter_admits (tasks : List Task) (spec other : Spec) :
    filterTasks tasks spec = tasks.filter (spec.Admits ·) ∧
      filterTasks (filterTasks tasks spec) other = filterTasks (filterTasks tasks other) spec := by
  refine ⟨filterTasks_eq_filter tasks spec, ?_⟩
  simp only [filterTasks_eq_filter, List.filter_filter]
  exact List.filter_congr fun t _ => Bool.and_comm _ _

end Checklist
