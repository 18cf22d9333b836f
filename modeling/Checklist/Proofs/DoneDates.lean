import Checklist.Task.Lifecycle

/-!
# Completion dates — when a task carries the day it was done

A task is dated when it has a completion date exactly if it is done. Every step of its life changes
the dates by one rule: a step to done puts the day in, a step away from done takes it out, and any
other step leaves the dates as they are given (`done_update`). So a step keeps a task dated as long
as the dates that it brings along suit a status that does not move to or from done
(`doneDated_update_iff`). Over a whole life that is the exact condition (`history_doneDated_iff`):
a life in which no step brings dates along is dated throughout, and an edit that gives a done task
other dates, without the day it was done, is where the date gets lost (`not_doneDated_redated`).
-/

namespace Checklist

namespace Task

/-- Whether the task has a completion date exactly if it is done. -/
def DoneDated (t : Task) : Prop := t.dates.done.isSome ↔ t.status = .done

instance (t : Task) : Decidable t.DoneDated :=
  inferInstanceAs (Decidable (t.dates.done.isSome ↔ t.status = .done))

/-- What can be done to a task. -/
inductive Action where
  | edit (changes : Changes)
  | move (status : Status)
  | cycle

/-- One step in the life of a task. -/
structure Step where
  action : Action
  codec : Codec
  today : Option Date

/-- The task after the step. -/
def Step.apply (step : Step) (t : Task) : Task :=
  match step.action with
  | .edit changes => t.update step.codec step.today changes
  | .move status => t.setStatus step.codec step.today status
  | .cycle => t.cycleStatus step.codec step.today

/-- The task and what becomes of it with each of the steps. -/
def history (t : Task) : List Step → List Task
  | [] => [t]
  | step :: steps => t :: (step.apply t).history steps

/-! ## One step -/

/-- The changes that an action makes to a task of this status. -/
def Action.changes (before : Status) : Action → Changes
  | .edit changes => changes
  | .move status => { status := some status }
  | .cycle => { status := some before.next }

/-- Every step is an update. -/
theorem Step.apply_eq (step : Step) (t : Task) :
    step.apply t = t.update step.codec step.today (step.action.changes t.status) := by
  obtain ⟨action, codec, today⟩ := step
  cases action <;> rfl

/-- The status that the changes lead to. -/
def statusAfter (before : Status) (changes : Changes) : Status := changes.status.getD before

variable {t : Task} {codec : Codec} {today : Option Date} {changes : Changes}

theorem status_update : (t.update codec today changes).status = statusAfter t.status changes := by
  simp only [update, rendered, stamped]
  split
  · rfl
  · split <;> rfl

/-- The completion date is put in on the way to done, taken out on the way back, and otherwise it is
the one that is given. -/
theorem done_update : (t.update codec today changes).dates.done =
    if statusAfter t.status changes = .done ∧ t.status ≠ .done then
      some (today.getD codec.today).iso
    else if statusAfter t.status changes ≠ .done ∧ t.status = .done then none
    else (changes.dates.getD t.dates).done := by
  have hedited : (t.edited changes).status = statusAfter t.status changes := rfl
  simp only [update, rendered, stamped, hedited]
  split
  · rfl
  · split <;> rfl

/-- Whether the dates that the changes bring along suit the status, where that does not move to or
from done: those of a done task hold the day it was done, and those of another one do not. -/
def ChangesSuit (before : Status) (changes : Changes) : Prop :=
  ∀ dates ∈ changes.dates, (statusAfter before changes = .done ↔ before = .done) →
    (dates.done.isSome ↔ before = .done)

/-- Changes that bring no dates along suit any status. -/
theorem changesSuit_of_none (h : changes.dates = none) (before : Status) :
    ChangesSuit before changes := by
  intro dates hdates
  rw [h] at hdates
  exact nomatch hdates

/-- An update keeps a task dated exactly when the dates that it brings along suit the status. -/
theorem doneDated_update_iff (h : t.DoneDated) :
    (t.update codec today changes).DoneDated ↔ ChangesSuit t.status changes := by
  unfold DoneDated ChangesSuit
  rw [status_update, done_update]
  generalize statusAfter t.status changes = now
  by_cases hto : now = .done <;> by_cases hfrom : t.status = .done
  · -- A done task stays done.
    rw [if_neg (by simp [hfrom]), if_neg (by simp [hto])]
    cases hdates : changes.dates with
    | none =>
        have hdone : t.dates.done.isSome = true := h.mpr hfrom
        simp [hto, hdone]
    | some dates => simp [hto, hfrom]
  · -- It comes to be done: the day is put in.
    rw [if_pos ⟨hto, hfrom⟩]
    simp [hto, hfrom]
  · -- It is done no more: the day is taken out.
    rw [if_neg (by simp [hto]), if_pos ⟨hto, hfrom⟩]
    simp [hto, hfrom]
  · rw [if_neg (by simp [hto]), if_neg (by simp [hfrom])]
    cases hdates : changes.dates with
    | none =>
        have hdone : t.dates.done.isSome = false :=
          Bool.eq_false_iff.mpr fun hsome => hfrom (h.mp hsome)
        simp [hto, hdone]
    | some dates => simp [hto, hfrom]

/-! ## A whole life -/

/-- Whether each step suits the status that the steps before it lead to. -/
def StepsSuit : Status → List Step → Prop
  | _, [] => True
  | before, step :: steps =>
    ChangesSuit before (step.action.changes before) ∧
      StepsSuit (statusAfter before (step.action.changes before)) steps

/-- Steps that bring no dates along suit any status. -/
theorem stepsSuit_of_none {steps : List Step}
    (h : ∀ step ∈ steps, ∀ changes, step.action = .edit changes → changes.dates = none)
    (before : Status) : StepsSuit before steps := by
  induction steps generalizing before with
  | nil => trivial
  | cons step steps ih =>
      obtain ⟨hstep, hsteps⟩ := List.forall_mem_cons.mp h
      refine ⟨changesSuit_of_none ?_ before, ih hsteps _⟩
      cases haction : step.action with
      | edit changes => exact hstep changes haction
      | move status => rfl
      | cycle => rfl

/-- By induction on the steps, each of which begins where the last one ended. -/
theorem forall_history_doneDated_iff (h : t.DoneDated) (steps : List Step) :
    (∀ u ∈ t.history steps, u.DoneDated) ↔ StepsSuit t.status steps := by
  induction steps generalizing t with
  | nil => simpa [history, StepsSuit] using h
  | cons step steps ih =>
      have hstep : (step.apply t).DoneDated ↔
          ChangesSuit t.status (step.action.changes t.status) := by
        rw [step.apply_eq]
        exact doneDated_update_iff h
      have hstatus : (step.apply t).status =
          statusAfter t.status (step.action.changes t.status) := by
        rw [step.apply_eq, status_update]
      rw [history, List.forall_mem_cons, StepsSuit, ← hstatus]
      constructor
      · rintro ⟨-, hlater⟩
        have hdated : (step.apply t).DoneDated := by
          refine hlater _ ?_
          cases steps <;> exact List.mem_cons_self
        exact ⟨hstep.mp hdated, (ih hdated).mp hlater⟩
      · rintro ⟨hsuits, hlater⟩
        exact ⟨h, (ih (hstep.mpr hsuits)).mpr hlater⟩

/-- A new task is dated unless a completion date is given for one that is not done. -/
theorem doneDated_create_iff {id : Text} {draft : Draft} :
    (create codec today id draft).DoneDated ↔
      (draft.status ≠ .done → draft.dates.done = none) := by
  have hstatus : (create codec today id draft).status = draft.status := rfl
  have hdone : (create codec today id draft).dates.done =
      if draft.status = .done ∧ draft.dates.done.all List.isEmpty then
        some (today.getD codec.today).iso
      else draft.dates.done := by
    simp only [create, rendered]
    split <;> rfl
  unfold DoneDated
  rw [hstatus, hdone]
  by_cases hdraft : draft.status = .done
  · cases hgiven : draft.dates.done with
    | none => simp [hdraft]
    | some written => by_cases hempty : written.isEmpty = true <;> simp [hdraft, hempty]
  · rw [if_neg fun hboth => hdraft hboth.1]
    simp [hdraft]

/-- **The life of a task.** From its creation on a task is dated after every step exactly when it is
not created with a completion date it must not have and no edit brings along dates that do not suit
its status. -/
theorem history_doneDated_iff (codec : Codec) (today : Option Date) (id : Text) (draft : Draft)
    (steps : List Step) :
    (∀ t ∈ (create codec today id draft).history steps, t.DoneDated) ↔
      (draft.status ≠ .done → draft.dates.done = none) ∧ StepsSuit draft.status steps := by
  have hstatus : (create codec today id draft).status = draft.status := rfl
  constructor
  · intro hall
    have hdated : (create codec today id draft).DoneDated := by
      refine hall _ ?_
      cases steps <;> exact List.mem_cons_self
    exact ⟨doneDated_create_iff.mp hdated,
      hstatus ▸ (forall_history_doneDated_iff hdated steps).mp hall⟩
  · rintro ⟨hdraft, hsuit⟩
    exact (forall_history_doneDated_iff (doneDated_create_iff.mpr hdraft) steps).mpr
      (hstatus ▸ hsuit)

/-- A task that is done from the start and then given a due date, as the dates of an edit replace
all dates, is done without a completion date. -/
theorem not_doneDated_redated :
    ¬ ∀ t ∈ (create ⟨.wrapped, .first⟩ none (placeholderId 0) { status := .done }).history
        [⟨.edit { dates := some { due := some "2024-07-01".toList } }, ⟨.wrapped, .first⟩, none⟩],
      t.DoneDated := by
  decide +kernel

end Task

end Checklist
