import Mathlib.Algebra.GroupWithZero.Nat
import Mathlib.Data.List.Induction
import Checklist.Proofs.Dialects
import Checklist.Proofs.Filtering
import Checklist.Summary

/-!
# Summaries — counts that agree with each other and with the query language

The projects of a list of tasks are counted in one walk, which keeps for each project that was met a
row of counts. `Tallied` says what the rows tell of the tasks read so far: one more task keeps it
(`Tallied.addToProject`), so it holds of the whole list (`tallied_summarizeProjects`). Every task is
counted in one row (`sum_addToProject`) and has one of four states (`sum_countStatus`), so the rows
add up to the summary of the list (`summaries_agree`).

Whether a task is overdue is also told by the query for the days before today. The query has one
part, which sets one window (`compileQuery_before`), and of the tasks in that window the ones that
are not done are those that are overdue (`overdue_eq_query`).
-/

namespace Checklist

open Text

/-! ## Rows of counts -/

/-- The row tells the counts of its project among the tasks. -/
structure ProjectSummary.Counts (p : ProjectSummary) (tasks : List Task) : Prop where
  tag : p.tag = if p.name = noProject then [] else p.name
  taskCount : p.taskCount = tasks.countP (·.project = p.name)
  completedCount :
    p.completedCount = tasks.countP fun t => t.project = p.name ∧ t.status = .done

/-- The rows tell of these tasks: one row for each project, in the order in which the projects first
appear, with its counts. -/
structure Tallied (seen : List Task) (projects : List ProjectSummary) : Prop where
  names : ∀ name, name ∈ projects.map (·.name) ↔ name ∈ seen.map Task.project
  inOrder : (projects.map (·.name)).Pairwise fun a b =>
    (seen.map Task.project).idxOf a < (seen.map Task.project).idxOf b
  counts : ∀ p ∈ projects, p.Counts seen

section Step

variable {seen : List Task} {projects : List ProjectSummary} {p : ProjectSummary} {t : Task}

/-- A project that was not met yet has no tasks. -/
theorem ProjectSummary.counts_ofName {name : Text} (h : name ∉ seen.map Task.project) :
    (ofName name).Counts seen := by
  have hnone : ∀ t ∈ seen, t.project ≠ name := fun t ht heq =>
    h (List.mem_map.mpr ⟨t, ht, heq⟩)
  refine ⟨rfl, ?_, ?_⟩
  · refine (List.countP_eq_zero.mpr fun t ht => ?_).symm
    simp [ofName, hnone t ht]
  · refine (List.countP_eq_zero.mpr fun t ht => ?_).symm
    simp [ofName, hnone t ht]

/-- The row of the task's own project counts it. -/
theorem ProjectSummary.Counts.add (h : p.Counts seen) (hname : p.name = t.project) :
    (p.add t).Counts (seen ++ [t]) := by
  refine ⟨h.tag, ?_, ?_⟩
  · rw [List.countP_append, List.countP_singleton]
    simp [ProjectSummary.add, h.taskCount, hname]
  · rw [List.countP_append, List.countP_singleton]
    by_cases hdone : t.status = .done
    · simp [ProjectSummary.add, h.completedCount, hname, hdone]
    · simp [ProjectSummary.add, h.completedCount, hname, hdone]

/-- The rows of other projects do not. -/
theorem ProjectSummary.Counts.skip (h : p.Counts seen) (hname : p.name ≠ t.project) :
    p.Counts (seen ++ [t]) := by
  refine ⟨h.tag, ?_, ?_⟩
  · rw [List.countP_append, List.countP_singleton, h.taskCount]
    simp [Ne.symm hname]
  · rw [List.countP_append, List.countP_singleton, h.completedCount]
    simp [Ne.symm hname]

/-- The names stay in their order, and a new one comes last. -/
theorem map_name_addToProject (t : Task) (projects : List ProjectSummary) :
    (addToProject t projects).map (·.name) =
      if t.project ∈ projects.map (·.name) then projects.map (·.name)
      else projects.map (·.name) ++ [t.project] := by
  induction projects with
  | nil => rfl
  | cons p projects ih =>
      rw [addToProject]
      by_cases hp : p.name = t.project
      · rw [if_pos hp, List.map_cons, if_pos (by simp [hp])]
        rfl
      · rw [if_neg hp, List.map_cons, ih]
        simp only [List.map_cons, List.mem_cons, Ne.symm hp, false_or]
        split <;> rfl

/-- A row is that of another project, or it is the row of the task's own with the task added. -/
theorem mem_addToProject (hdistinct : (projects.map (·.name)).Nodup)
    (h : p ∈ addToProject t projects) :
    (p ∈ projects ∧ p.name ≠ t.project) ∨ ∃ old, p = old.add t ∧ old.name = t.project ∧
      (old ∈ projects ∨ t.project ∉ projects.map (·.name) ∧ old = .ofName t.project) := by
  induction projects with
  | nil => exact .inr ⟨_, List.mem_singleton.mp h, rfl, .inr ⟨List.not_mem_nil, rfl⟩⟩
  | cons first projects ih =>
      rw [List.map_cons, List.nodup_cons] at hdistinct
      rw [addToProject] at h
      -- Behind the row that the task was added to, no other is of its project, since names differ.
      by_cases hfirst : first.name = t.project
      · rw [if_pos hfirst] at h
        rcases List.mem_cons.mp h with rfl | h
        · exact .inr ⟨first, rfl, hfirst, .inl List.mem_cons_self⟩
        · refine .inl ⟨List.mem_cons_of_mem _ h, fun hname => hdistinct.1 ?_⟩
          rw [hfirst, ← hname]
          exact List.mem_map_of_mem h
      · rw [if_neg hfirst] at h
        rcases List.mem_cons.mp h with rfl | h
        · exact .inl ⟨List.mem_cons_self, hfirst⟩
        · rcases ih hdistinct.2 h with ⟨hmem, hname⟩ | ⟨old, rfl, hname, hmem | ⟨hnew, rfl⟩⟩
          · exact .inl ⟨List.mem_cons_of_mem _ hmem, hname⟩
          · exact .inr ⟨old, rfl, hname, .inl (List.mem_cons_of_mem _ hmem)⟩
          · refine .inr ⟨_, rfl, hname, .inr ⟨?_, rfl⟩⟩
            rw [List.map_cons, List.mem_cons, not_or]
            exact ⟨Ne.symm hfirst, hnew⟩

theorem Tallied.distinct (h : Tallied seen projects) : (projects.map (·.name)).Nodup := by
  refine h.inOrder.imp ?_
  rintro name _ hlt rfl
  exact Nat.lt_irrefl _ hlt

/-- A project that was met before appears where it did, and a new one behind all others. -/
theorem Tallied.inOrder_addToProject (h : Tallied seen projects) (t : Task) :
    ((Checklist.addToProject t projects).map (·.name)).Pairwise fun a b =>
      ((seen ++ [t]).map Task.project).idxOf a < ((seen ++ [t]).map Task.project).idxOf b := by
  -- The task at the end does not change where a name is met first.
  have hmet : ∀ name ∈ projects.map (·.name), ((seen ++ [t]).map Task.project).idxOf name =
      (seen.map Task.project).idxOf name := by
    intro name hname
    rw [List.map_append, List.idxOf_append, if_pos ((h.names name).mp hname)]
  have hold : (projects.map (·.name)).Pairwise fun a b =>
      ((seen ++ [t]).map Task.project).idxOf a < ((seen ++ [t]).map Task.project).idxOf b := by
    refine h.inOrder.imp_of_mem fun ha hb hlt => ?_
    rw [hmet _ ha, hmet _ hb]
    exact hlt
  rw [map_name_addToProject]
  split
  · exact hold
  · next hnew =>
      refine List.pairwise_append.mpr ⟨hold, List.pairwise_singleton _ _, ?_⟩
      intro name hname other hother
      have hfresh : t.project ∉ seen.map Task.project := fun hmem =>
        hnew ((h.names t.project).mpr hmem)
      rw [List.mem_singleton.mp hother, hmet name hname, List.map_append, List.idxOf_append,
        if_neg hfresh]
      exact Nat.lt_of_lt_of_le (List.idxOf_lt_length_of_mem ((h.names name).mp hname))
        (Nat.le_add_left _ _)

/-- One task more is told of in the row of its project. -/
theorem Tallied.addToProject (h : Tallied seen projects) (t : Task) :
    Tallied (seen ++ [t]) (addToProject t projects) := by
  refine ⟨fun name => ?_, h.inOrder_addToProject t, fun p hp => ?_⟩
  · rw [map_name_addToProject, List.map_append, List.mem_append, ← h.names name]
    split
    · next hmet =>
        refine (or_iff_left_of_imp fun hname => ?_).symm
        rw [List.mem_singleton.mp hname]
        exact hmet
    · rw [List.mem_append]
      rfl
  · rcases mem_addToProject h.distinct hp with ⟨hmem, hname⟩ | ⟨old, rfl, hname, hmem | ⟨hnew, rfl⟩⟩
    · exact (h.counts p hmem).skip hname
    · exact (h.counts old hmem).add hname
    · refine (ProjectSummary.counts_ofName fun hmem => ?_).add hname
      exact hnew ((h.names t.project).mpr hmem)

end Step

/-! ## The whole list -/

theorem summarizeProjects_concat (tasks : List Task) (t : Task) :
    summarizeProjects (tasks ++ [t]) = addToProject t (summarizeProjects tasks) := by
  rw [summarizeProjects, List.foldl_append]
  rfl

/-- By induction on the tasks read so far. -/
theorem tallied_summarizeProjects (tasks : List Task) :
    Tallied tasks (summarizeProjects tasks) := by
  induction tasks using List.reverseRecOn with
  | nil => exact ⟨fun name => Iff.rfl, List.Pairwise.nil, fun p hp => absurd hp List.not_mem_nil⟩
  | append_singleton tasks t ih =>
      rw [summarizeProjects_concat]
      exact ih.addToProject t

/-- What a task adds to a row it adds to the sum over all rows. -/
theorem sum_addToProject {f : ProjectSummary → Nat} {t : Task} {n : Nat}
    (hnew : f (.ofName t.project) = 0) (hadd : ∀ p, f (p.add t) = f p + n)
    (projects : List ProjectSummary) :
    ((addToProject t projects).map f).sum = (projects.map f).sum + n := by
  induction projects with
  | nil => simp [addToProject, hadd, hnew]
  | cons p projects ih =>
      rw [addToProject]
      split
      · simp only [List.map_cons, List.sum_cons, hadd]
        omega
      · simp only [List.map_cons, List.sum_cons, ih]
        omega

theorem sum_taskCount (tasks : List Task) :
    ((summarizeProjects tasks).map (·.taskCount)).sum = tasks.length := by
  induction tasks using List.reverseRecOn with
  | nil => rfl
  | append_singleton tasks t ih =>
      rw [summarizeProjects_concat, sum_addToProject (n := 1) rfl (fun _ => rfl), ih,
        List.length_append, List.length_singleton]

theorem sum_completedCount (tasks : List Task) :
    ((summarizeProjects tasks).map (·.completedCount)).sum = countStatus .done tasks := by
  induction tasks using List.reverseRecOn with
  | nil => rfl
  | append_singleton tasks t ih =>
      have hadd (p : ProjectSummary) :
          (p.add t).completedCount = p.completedCount + if t.status = .done then 1 else 0 := by
        rw [ProjectSummary.add]
        split <;> rfl
      rw [summarizeProjects_concat, sum_addToProject rfl hadd, ih, countStatus, countStatus,
        List.countP_append, List.countP_singleton]
      simp

/-- Every task has one of four states. -/
theorem sum_countStatus (tasks : List Task) :
    countStatus .done tasks + countStatus .inProgress tasks + countStatus .todo tasks +
      countStatus .cancelled tasks = tasks.length := by
  induction tasks with
  | nil => rfl
  | cons t tasks ih =>
      simp only [countStatus, List.countP_cons, List.length_cons] at ih ⊢
      cases t.status <;> simp <;> omega

/-- **The summaries agree.** The projects of a list of tasks have different names, in the order in
which they first appear, and each of them tells how many tasks belong to it and how many of those
are done. Over all projects these add up to the tasks and the completed tasks of the summary,
whatever today is, and so do the four states. -/
theorem summaries_agree (tasks : List Task) :
    ((summarizeProjects tasks).map (·.name)).Nodup ∧
      Tallied tasks (summarizeProjects tasks) ∧
      ∀ today,
        ((summarizeProjects tasks).map (·.taskCount)).sum = (summarize tasks today).total ∧
        ((summarizeProjects tasks).map (·.completedCount)).sum =
          (summarize tasks today).completed ∧
        (summarize tasks today).completed + (summarize tasks today).inProgress +
            (summarize tasks today).todo + (summarize tasks today).cancelled =
          (summarize tasks today).total :=
  ⟨(tallied_summarizeProjects tasks).distinct, tallied_summarizeProjects tasks, fun _ =>
    ⟨sum_taskCount tasks, sum_completedCount tasks, sum_countStatus tasks⟩⟩

/-! ## Overdue tasks -/

/-- A day behind the sign for the days before it is one word, and no directive. -/
theorem bareWord_before (day : Date) : BareWord ('<' :: day.iso) := by
  have hdate : ∀ c ∈ day.iso, isBlank c = false ∧ isInvisible c = false ∧ lowerChar c = [c] :=
    Date.forall_mem_iso (P := fun c => isBlank c = false ∧ isInvisible c = false ∧
      lowerChar c = [c]) (by decide +kernel) (by decide +kernel) day
  have hclass : ∀ c ∈ '<' :: day.iso, isBlank c = false ∧ isInvisible c = false ∧
      lowerChar c = [c] :=
    List.forall_mem_cons.mpr ⟨by decide +kernel, hdate⟩
  refine ⟨List.cons_ne_nil _ _, fun c hc => (hclass c hc).1, fun c hc => (hclass c hc).2.1, ?_⟩
  intro k hprefix
  rw [lower, lowerFrom_eq_self (fun c hc => (hclass c hc).2.2) false] at hprefix
  obtain ⟨rest, hrest⟩ := hprefix
  cases k <;> exact absurd (List.cons.inj hrest).1 (by decide)

/-- The query for the days before a day asks for nothing else, whenever it is read. -/
theorem compileQuery_before (day reference : Date) :
    compileQuery ("due: <".toList ++ day.iso) reference =
      .ok { dueWindow := some ⟨none, some day⟩ } := by
  let item : QueryItem := .directive .due "due".toList ('<' :: day.iso)
  have hvalid : ∀ one ∈ [item], one.Valid := by
    intro one hone
    rw [List.mem_singleton.mp hone]
    exact ⟨by decide +kernel, bareWord_before day, fun hlist => nomatch hlist⟩
  have htext : "due: <".toList ++ day.iso = joinWith [' '] ([item].map QueryItem.text) := by
    have hstart : "due: <".toList = "due".toList ++ [':'] ++ [' ', '<'] := by decide
    rw [hstart, List.append_assoc]
    rfl
  have hmatch : matchDirective item.part = some (.due, trim (' ' :: '<' :: day.iso)) :=
    Keyword.due.spelled_start.matchDirective_append (' ' :: '<' :: day.iso)
  have hheading : dropHeading [item.part] = [item.part] := by
    rw [dropHeading, if_neg]
    intro hlower
    exact absurd (matchDirective_of_heading hlower) (by simp [hmatch])
  -- The value is bounded on one side, so neither today nor the end of the calendar matters.
  have hwindow : DateWindow.ofText? (trim (' ' :: '<' :: day.iso)) reference =
      .ok (some ⟨none, some day⟩) := by
    have hwrites : DateWindow.Writes ['<'] day (' ' :: '<' :: day.iso) :=
      ⟨[' '], [], [], forall_mem_of_all (by decide), List.forall_mem_nil _, List.forall_mem_nil _,
        by simp⟩
    rw [DateWindow.ofText?, trim_trim]
    exact DateWindow.ofText?_before hwrites
  have hpatch : Keyword.due.patch (trim (' ' :: '<' :: day.iso)) reference =
      .ok { dueWindow := some ⟨none, some day⟩ } := by
    rw [Keyword.patch, hwindow]
    rfl
  rw [htext, compileQuery_eq, splitQuery_row hvalid (.singleton item), List.map_singleton,
    hheading, compileParts_eq_ok_iff]
  exact ⟨_, Slot.mergePatches_eq (.filled hmatch hpatch), by simp [freeText?, hmatch, unlessEmpty]⟩

/-- Of all days a window without a first one lets through those before its end. -/
theorem contains_before (day : Date) (written : Option Text) :
    DateWindow.contains ⟨none, some day⟩ written =
      (written.bind Date.ofIso?).any (· < day) := rfl

/-- A window for due dates lets through the tasks that are due in it. -/
theorem filterTasks_due (tasks : List Task) (w : DateWindow) :
    filterTasks tasks { dueWindow := some w } = tasks.filter fun t => w.contains t.dates.due := rfl

/-- **Overdue tasks and the query language.** The query for the days before today is understood on
every day, and of the tasks that it lets through the ones that are not done are those that are
overdue today, in the same order. So the summary counts just these. -/
theorem overdue_eq_query (tasks : List Task) (today reference : Date) :
    ∃ spec, compileQuery ("due: <".toList ++ today.iso) reference = .ok spec ∧
      (filterTasks tasks spec).filter (·.status ≠ .done) = tasks.filter (·.isOverdue today) ∧
      (summarize tasks today).overdue =
        ((filterTasks tasks spec).filter (·.status ≠ .done)).length := by
  have hsame : (filterTasks tasks { dueWindow := some ⟨none, some today⟩ }).filter
      (·.status ≠ .done) = tasks.filter (·.isOverdue today) := by
    rw [filterTasks_due, List.filter_filter]
    refine List.filter_congr fun t _ => ?_
    rw [contains_before, Task.isOverdue]
  refine ⟨_, compileQuery_before today reference, hsame, ?_⟩
  rw [hsame, ← List.countP_eq_length_filter, summarize]

end Checklist
