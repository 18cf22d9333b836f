import Mathlib.Data.List.Induction
import Checklist.Proofs.DoneDates

/-!
# Runs of status changes — what a task keeps, and which day it was done

A step that moves a task from status to status leaves everything else of it alone, apart from its
line and the day it was done (`Step.frame_apply`). That day is put in by a step that finishes the
task and taken out by one that reopens it (`Step.done_apply`), so after a run it hangs on what
happened on the way: on the last step that finished the task if it is done at the end, and else on
whether any step reopened it. The induction adds the steps at the end of the run, where each finds
what the steps before it have left (`done_through`).
-/

namespace Checklist

namespace Task

/-- The step edits nothing: it moves the task to a status or to the next one. -/
def Step.Moves (step : Step) : Prop := ∀ changes, step.action ≠ .edit changes

/-- The day on which the step is taken. -/
def Step.day (step : Step) : Date := step.today.getD step.codec.today

/-- The status that the step leads to. -/
def Step.target (step : Step) (before : Status) : Status :=
  match step.action with
  | .edit changes => changes.status.getD before
  | .move status => status
  | .cycle => before.next

/-- The task after all of the steps. -/
def through (t : Task) (steps : List Step) : Task := steps.foldl (fun t step => step.apply t) t

/-- A step of a run and the task that it is taken with. -/
structure Turn where
  before : Task
  step : Step

/-- The task after the step. -/
def Turn.after (turn : Turn) : Task := turn.step.apply turn.before

/-- The step moves the task to done. -/
def Turn.Finishes (turn : Turn) : Prop := turn.before.status ≠ .done ∧ turn.after.status = .done

/-- The step moves the task away from done. -/
def Turn.Reopens (turn : Turn) : Prop := turn.before.status = .done ∧ turn.after.status ≠ .done

instance (turn : Turn) : Decidable turn.Finishes :=
  inferInstanceAs (Decidable (turn.before.status ≠ .done ∧ turn.after.status = .done))

instance (turn : Turn) : Decidable turn.Reopens :=
  inferInstanceAs (Decidable (turn.before.status = .done ∧ turn.after.status ≠ .done))

/-- The steps of a run, each with the task that the ones before it have left. -/
def turns (t : Task) : List Step → List Turn
  | [] => []
  | step :: steps => ⟨t, step⟩ :: (step.apply t).turns steps

/-! ## One step -/

variable {step : Step} {steps : List Step} {t : Task}

theorem Step.status_apply (step : Step) (t : Task) :
    (step.apply t).status = step.target t.status := by
  obtain ⟨action, codec, today⟩ := step
  cases action <;> exact status_update

/-- A move brings no dates along. -/
theorem Step.Moves.dates_changes (h : step.Moves) (before : Status) :
    (step.action.changes before).dates = none := by
  cases haction : step.action with
  | edit changes => exact absurd haction (h changes)
  | move status => rfl
  | cycle => rfl

/-- The day is put in when the task is finished and taken out when it is reopened. -/
theorem Step.done_apply (h : step.Moves) (t : Task) : (step.apply t).dates.done =
    if (Turn.mk t step).Finishes then some step.day.iso
    else if (Turn.mk t step).Reopens then none
    else t.dates.done := by
  have hstatus : statusAfter t.status (step.action.changes t.status) = (step.apply t).status := by
    rw [step.apply_eq, status_update]
  rw [step.apply_eq, done_update, hstatus, h.dates_changes, Option.getD_none]
  split
  · next hto =>
      have hfinishes : (Turn.mk t step).Finishes := ⟨hto.2, hto.1⟩
      rw [if_pos hfinishes, Step.day]
  · next hto =>
      have hfinishes : ¬ (Turn.mk t step).Finishes := fun h => hto ⟨h.2, h.1⟩
      rw [if_neg hfinishes]
      split
      · next hfrom =>
          have hreopens : (Turn.mk t step).Reopens := ⟨hfrom.2, hfrom.1⟩
          rw [if_pos hreopens]
      · next hfrom =>
          have hreopens : ¬ (Turn.mk t step).Reopens := fun h => hfrom ⟨h.2, h.1⟩
          rw [if_neg hreopens]

/-- A change of status leaves all but the status, the completion date and the line alone. -/
theorem setStatus_eq (codec : Codec) (today : Option Date) (status : Status) (t : Task) :
    t.setStatus codec today status =
      { t with
        status
        dates := { t.dates with done := (t.setStatus codec today status).dates.done }
        sourceText := codec.format (t.setStatus codec today status) } := by
  rw [setStatus, update, rendered, stamped]
  split
  · rfl
  · split <;> rfl

theorem Step.apply_eq_setStatus (h : step.Moves) (t : Task) :
    step.apply t = t.setStatus step.codec step.today (step.target t.status) := by
  obtain ⟨action, codec, today⟩ := step
  cases action with
  | edit changes => exact absurd rfl (h changes)
  | move status => rfl
  | cycle => rfl

/-- The step leaves all but the status, the completion date and the line alone, and the line is
written for the task that it leads to. -/
theorem Step.frame_apply (h : step.Moves) (t : Task) : step.apply t =
    { t with
      status := step.target t.status
      dates := { t.dates with done := (step.apply t).dates.done }
      sourceText := step.codec.format (step.apply t) } := by
  have heq := setStatus_eq step.codec step.today (step.target t.status) t
  rwa [← Step.apply_eq_setStatus h] at heq

/-! ## A whole run -/

theorem through_concat (t : Task) (steps : List Step) (step : Step) :
    t.through (steps ++ [step]) = step.apply (t.through steps) := by
  rw [through, List.foldl_append]
  rfl

theorem turns_concat (t : Task) (steps : List Step) (step : Step) :
    t.turns (steps ++ [step]) = t.turns steps ++ [⟨t.through steps, step⟩] := by
  induction steps generalizing t with
  | nil => rfl
  | cons first steps ih =>
      rw [List.cons_append, turns, turns, ih]
      rfl

theorem status_through (t : Task) (steps : List Step) :
    (t.through steps).status = steps.foldl (fun status step => step.target status) t.status := by
  induction steps generalizing t with
  | nil => rfl
  | cons step steps ih =>
      show ((step.apply t).through steps).status = _
      rw [ih, step.status_apply]
      rfl

theorem frame_through (h : ∀ step ∈ steps, step.Moves) (t : Task) : t.through steps =
    { t with
      status := (t.through steps).status
      dates := { t.dates with done := (t.through steps).dates.done }
      sourceText := (t.through steps).sourceText } := by
  induction steps using List.reverseRecOn with
  | nil => rfl
  | append_singleton steps step ih =>
      have hsteps := ih fun other hother => h other (List.mem_append_left [step] hother)
      have hstep : step.Moves := h step (by simp)
      rw [through_concat, Step.frame_apply hstep, hsteps]

/-- By induction on the steps from the last one on. -/
theorem done_through (h : ∀ step ∈ steps, step.Moves) (t : Task) : (t.through steps).dates.done =
    if (t.through steps).status = .done then
      ((t.turns steps).filter (·.Finishes)).getLast?.elim t.dates.done
        fun turn => some turn.step.day.iso
    else if ∃ turn ∈ t.turns steps, turn.Reopens then none
    else t.dates.done := by
  induction steps using List.reverseRecOn with
  | nil =>
      show t.dates.done = _
      simp [turns]
  | append_singleton steps step ih =>
      have hsteps := ih fun other hother => h other (List.mem_append_left [step] hother)
      have hstep : step.Moves := h step (by simp)
      rw [through_concat, turns_concat, Step.done_apply hstep, hsteps]
      simp only [List.filter_append, List.mem_append, List.mem_singleton, or_and_right, exists_or,
        exists_eq_left]
      by_cases hbefore : (t.through steps).status = .done
      · have hfinishes : ¬ (Turn.mk (t.through steps) step).Finishes := fun h => h.1 hbefore
        rw [if_neg hfinishes, if_pos hbefore]
        by_cases hafter : (step.apply (t.through steps)).status = .done
        · -- It stays done: the day stays too.
          have hreopens : ¬ (Turn.mk (t.through steps) step).Reopens := fun h => h.2 hafter
          rw [if_neg hreopens, if_pos hafter]
          simp [hfinishes]
        · -- It is reopened: the day is gone.
          have hreopens : (Turn.mk (t.through steps) step).Reopens := ⟨hbefore, hafter⟩
          rw [if_pos hreopens, if_neg hafter, if_pos (.inr hreopens)]
      · have hreopens : ¬ (Turn.mk (t.through steps) step).Reopens := fun h => hbefore h.1
        rw [if_neg hreopens, if_neg hbefore]
        by_cases hafter : (step.apply (t.through steps)).status = .done
        · -- It is finished: this is the last step to finish it.
          have hfinishes : (Turn.mk (t.through steps) step).Finishes := ⟨hbefore, hafter⟩
          rw [if_pos hfinishes, if_pos hafter]
          simp [hfinishes]
        · -- It stays unfinished: what has been reopened before counts.
          have hfinishes : ¬ (Turn.mk (t.through steps) step).Finishes := fun h => hafter h.2
          rw [if_neg hfinishes, if_neg hafter]
          simp [hreopens]

/-- The line is written for the task that the last step leads to. -/
theorem sourceText_through (h : ∀ step ∈ steps, step.Moves) (t : Task) (last : Step)
    (hlast : steps.getLast? = some last) :
    (t.through steps).sourceText = last.codec.format (t.through steps) := by
  obtain ⟨earlier, rfl⟩ := List.getLast?_eq_some_iff.mp hlast
  rw [through_concat]
  exact congrArg sourceText (Step.frame_apply (h last (by simp)) (t.through earlier))

/-- **A run of status changes.** However often a task is moved, the run changes its status, its line
and its completion date and nothing else: it has the status that the steps lead to, and the line
that the codec of the last step writes for it. A task that is done at the end was done on the day of
the last step that moved it to done, or has the date that it had at the beginning if no step did.
Any other task has no date if some step moved it away from done, and else the one that it had. -/
theorem through_of_moves (t : Task) (steps : List Step) (h : ∀ step ∈ steps, step.Moves) :
    t.through steps =
        { t with
          status := (t.through steps).status
          dates := { t.dates with done := (t.through steps).dates.done }
          sourceText := (t.through steps).sourceText } ∧
      (t.through steps).status = steps.foldl (fun status step => step.target status) t.status ∧
      (∀ last, steps.getLast? = some last →
        (t.through steps).sourceText = last.codec.format (t.through steps)) ∧
      (t.through steps).dates.done =
        if (t.through steps).status = .done then
          ((t.turns steps).filter (·.Finishes)).getLast?.elim t.dates.done
            fun turn => some turn.step.day.iso
        else if ∃ turn ∈ t.turns steps, turn.Reopens then none
        else t.dates.done :=
  ⟨frame_through h t, status_through t steps, sourceText_through h t, done_through h t⟩

/-- Finished, moved to done again two days later, reopened by stepping on, and finished once more by
stepping on twice: the last of these days counts. -/
theorem through_of_moves_finishedTwice :
    let codec : Codec := ⟨.wrapped, .first⟩
    let day (n : Nat) : Option Date := Date.of? 2024 6 n
    let steps : List Step := [⟨.move .done, codec, day 15⟩, ⟨.move .done, codec, day 17⟩,
      ⟨.cycle, codec, day 18⟩, ⟨.cycle, codec, day 19⟩, ⟨.cycle, codec, day 20⟩]
    let task : Task := { id := "line-1".toList, status := .cancelled }
    (∀ step ∈ steps, step.Moves) ∧ (task.through steps).status = .done ∧
      (task.through steps).dates.done = some "2024-06-20".toList := by
  intro codec day steps task
  have hmoves : ∀ step ∈ steps, step.Moves := by
    simp [steps, Step.Moves]
  obtain ⟨-, hstatus, -, hdone⟩ := through_of_moves task steps hmoves
  exact ⟨hmoves, hstatus.trans (by decide), hdone.trans (by decide +kernel)⟩

end Task

end Checklist
