import Mathlib.Data.List.Basic
import Mathlib.Data.List.Perm.Basic
import Checklist.Query.Sort

/-!
# Sorting — the answer to a query, and what it leaves out

A list is *arranged* by an order when it holds the same tasks, none of them ahead of one that stands
before it, and when tasks with equal keys stand as they came (`SortSpec.Arranges`). There is exactly
one such arrangement (`Arranges.eq`), and `sortTasks` finds it in either direction
(`sortTasks_arranges`). The answer to a query is the start of that arrangement
(`applyQuery_eq_start_of_arrangement`).
-/

namespace Checklist

namespace SortKey

theorem le_total (k l : SortKey) : (k.le l || l.le k) = true := by
  cases k with
  | text a =>
      cases l with
      | text b => exact Text.le_total a b
      | number y => rfl
  | number x =>
      cases l with
      | text b => rfl
      | number y => simpa [le] using Rat.le_total

theorem le_trans {k l m : SortKey} (hkl : k.le l = true) (hlm : l.le m = true) :
    k.le m = true := by
  -- Texts come before numbers, and each sort is ordered by itself.
  cases k with
  | text a =>
      cases l with
      | text b =>
          cases m with
          | text c => exact Text.le_trans hkl hlm
          | number z => rfl
      | number y =>
          cases m with
          | text c => exact absurd hlm (by simp [le])
          | number z => rfl
  | number x =>
      cases l with
      | text b => exact absurd hkl (by simp [le])
      | number y =>
          cases m with
          | text c => exact absurd hlm (by simp [le])
          | number z =>
              simp only [le, decide_eq_true_eq] at hkl hlm ⊢
              exact Rat.le_trans hkl hlm

theorem le_antisymm {k l : SortKey} (hkl : k.le l = true) (hlk : l.le k = true) : k = l := by
  cases k with
  | text a =>
      cases l with
      | text b => rw [Text.le_antisymm hkl hlk]
      | number y => exact absurd hlk (by simp [le])
  | number x =>
      cases l with
      | text b => exact absurd hkl (by simp [le])
      | number y =>
          simp only [le, decide_eq_true_eq] at hkl hlk
          rw [Rat.le_antisymm hkl hlk]

theorem le_refl (k : SortKey) : k.le k = true := by simpa using le_total k k

end SortKey

namespace SortSpec

variable {sort : SortSpec} {tasks sorted : List Task}

/-- Whether the first task comes strictly ahead of the second: its key is the smaller one in an
ascending order and the larger one in a descending order. -/
def Ahead (sort : SortSpec) (a b : Task) : Prop :=
  match sort.direction with
  | .ascending => (sort.field.key b).le (sort.field.key a) = false
  | .descending => (sort.field.key a).le (sort.field.key b) = false

/-- The second list holds the tasks of the first one in order, and tasks with equal keys stand in it
as they stand in the first. -/
structure Arranges (sort : SortSpec) (tasks sorted : List Task) : Prop where
  perm : sorted.Perm tasks
  ordered : sorted.Pairwise fun a b => ¬ sort.Ahead b a
  stable : ∀ key,
    sorted.filter (sort.field.key · = key) = tasks.filter (sort.field.key · = key)

theorem not_ahead_iff {a b : Task} : ¬ sort.Ahead b a ↔ sort.le a b = true := by
  obtain ⟨field, direction⟩ := sort
  cases direction <;> simp [Ahead, le]

theorem le_total (sort : SortSpec) (a b : Task) : (sort.le a b || sort.le b a) = true := by
  obtain ⟨field, direction⟩ := sort
  cases direction with
  | ascending => exact SortKey.le_total _ _
  | descending => exact SortKey.le_total _ _

theorem le_trans (sort : SortSpec) (a b c : Task) (hab : sort.le a b = true)
    (hbc : sort.le b c = true) : sort.le a c = true := by
  obtain ⟨field, direction⟩ := sort
  cases direction with
  | ascending => exact SortKey.le_trans hab hbc
  | descending => exact SortKey.le_trans hbc hab

/-- Tasks that may stand either way round have one key. -/
theorem key_eq_of_le {a b : Task} (hab : sort.le a b = true) (hba : sort.le b a = true) :
    sort.field.key a = sort.field.key b := by
  obtain ⟨field, direction⟩ := sort
  cases direction with
  | ascending => exact SortKey.le_antisymm hab hba
  | descending => exact SortKey.le_antisymm hba hab

theorem le_of_key_eq {a b : Task} (h : sort.field.key a = sort.field.key b) :
    sort.le a b = true := by
  obtain ⟨field, direction⟩ := sort
  cases direction <;> simp_all [le, SortKey.le_refl]

/-- Sorting arranges, whichever end comes first. -/
theorem sortTasks_arranges (sort : SortSpec) (tasks : List Task) :
    sort.Arranges tasks (sortTasks tasks sort) where
  perm := List.mergeSort_perm tasks sort.le
  ordered :=
    (List.pairwise_mergeSort sort.le_trans sort.le_total tasks).imp not_ahead_iff.mpr
  stable := by
    intro key
    have hties : (tasks.filter (sort.field.key · = key)).Pairwise (sort.le · · = true) := by
      refine List.pairwise_of_forall_mem_list fun a ha b hb => le_of_key_eq ?_
      simp only [List.mem_filter, decide_eq_true_eq] at ha hb
      rw [ha.2, hb.2]
    -- The tasks with this key are in order as they come, so sorting keeps them as a row.
    have hkept : (tasks.filter (sort.field.key · = key)).Sublist (sortTasks tasks sort) :=
      List.sublist_mergeSort sort.le_trans sort.le_total hties List.filter_sublist
    have hrow := hkept.filter (sort.field.key · = key)
    rw [List.filter_filter] at hrow
    simp only [Bool.and_self] at hrow
    have hlength := ((List.mergeSort_perm tasks sort.le).filter (sort.field.key · = key)).length_eq
    exact (hrow.eq_of_length hlength.symm).symm

namespace Arranges

/-- The first task of an arrangement may stand before every task. -/
theorem le_of_mem {a b : Task} (h : sort.Arranges tasks (a :: sorted)) (hb : b ∈ tasks) :
    sort.le a b = true := by
  rcases List.mem_cons.mp (h.perm.mem_iff.mpr hb) with rfl | hb
  · exact le_of_key_eq rfl
  · exact not_ahead_iff.mp (List.rel_of_pairwise_cons h.ordered hb)

/-- Without the task at the head of both, an arrangement is one of the others. -/
theorem tail {a : Task} (h : sort.Arranges (a :: tasks) (a :: sorted)) :
    sort.Arranges tasks sorted where
  perm := h.perm.cons_inv
  ordered := (List.pairwise_cons.mp h.ordered).2
  stable := by
    intro key
    have hrow := h.stable key
    by_cases ha : sort.field.key a = key
    · rw [List.filter_cons_of_pos (by simpa using ha),
        List.filter_cons_of_pos (by simpa using ha)] at hrow
      exact (List.cons.inj hrow).2
    · rwa [List.filter_cons_of_neg (by simpa using ha),
        List.filter_cons_of_neg (by simpa using ha)] at hrow

/-- Among tasks that are in order already, arranging moves nothing. -/
theorem eq_of_ordered (h : sort.Arranges tasks sorted)
    (hordered : tasks.Pairwise fun a b => ¬ sort.Ahead b a) : sorted = tasks := by
  induction sorted generalizing tasks with
  | nil => exact h.perm.symm.eq_nil.symm
  | cons a sorted ih =>
      cases tasks with
      | nil => exact h.perm.eq_nil
      | cons b tasks =>
          have hba : sort.le b a = true := by
            rcases List.mem_cons.mp (h.perm.mem_iff.mp List.mem_cons_self) with rfl | ha
            · exact le_of_key_eq rfl
            · exact not_ahead_iff.mp (List.rel_of_pairwise_cons hordered ha)
          have hkey : sort.field.key a = sort.field.key b :=
            key_eq_of_le (h.le_of_mem List.mem_cons_self) hba
          -- Both are the first of the tasks with their key.
          obtain rfl : a = b := by
            have hrow := h.stable (sort.field.key a)
            rw [List.filter_cons_of_pos (by simp), List.filter_cons_of_pos (by simp [hkey])]
              at hrow
            exact (List.cons.inj hrow).1
          rw [ih h.tail (List.pairwise_cons.mp hordered).2]

/-- There is one arrangement only. -/
theorem eq {other : List Task} (h : sort.Arranges tasks sorted) (h' : sort.Arranges tasks other) :
    sorted = other := by
  have hother : sort.Arranges other sorted :=
    { perm := h.perm.trans h'.perm.symm
      ordered := h.ordered
      stable := fun key => (h.stable key).trans (h'.stable key).symm }
  exact hother.eq_of_ordered h'.ordered

end Arranges

end SortSpec

/-- The second list is the first one in the order that the specification asks for; without an order
it is the first one as it stands. -/
def Spec.Arranges (spec : Spec) (found arranged : List Task) : Prop :=
  match spec.sort with
  | some sort => sort.Arranges found arranged
  | none => arranged = found

namespace Spec

variable {spec : Spec} {found arranged : List Task}

/-- What a specification asks for is there, and nothing else is. -/
theorem arranges_iff :
    spec.Arranges found arranged ↔ arranged = spec.sort.elim found (sortTasks found) := by
  unfold Arranges
  cases spec.sort with
  | none => exact Iff.rfl
  | some sort =>
      constructor
      · intro h
        exact h.eq (sort.sortTasks_arranges found)
      · rintro rfl
        exact sort.sortTasks_arranges found

theorem Arranges.perm (h : spec.Arranges found arranged) : arranged.Perm found := by
  unfold Arranges at h
  split at h
  · exact h.perm
  · rw [h]

/-- A task is never strictly ahead of one that stands before it. -/
theorem Arranges.ordered (h : spec.Arranges found arranged) {sort : SortSpec}
    (hsort : spec.sort = some sort) : arranged.Pairwise fun a b => ¬ sort.Ahead b a := by
  simp only [Arranges, hsort] at h
  exact h.ordered

end Spec

/-- Filters take tasks out and change nothing else. -/
theorem filterTasks_sublist (tasks : List Task) (spec : Spec) :
    (filterTasks tasks spec).Sublist tasks := by
  unfold filterTasks
  generalize spec.tests = tests
  induction tests generalizing tasks with
  | nil => exact List.Sublist.refl tasks
  | cons test tests ih => exact (ih (tasks.filter test.passes)).trans List.filter_sublist

theorem limitTasks_of_pos {n : Int} (h : 0 < n) (tasks : List Task) :
    limitTasks tasks (some n) = tasks.take n.toNat := if_pos h

theorem limitTasks_of_not_pos {limit : Option Int} (h : ∀ n, limit = some n → n ≤ 0)
    (tasks : List Task) : limitTasks tasks limit = tasks := by
  cases limit with
  | none => rfl
  | some n => exact if_neg (Int.not_lt.mpr (h n rfl))

/-- What is kept up to a bound is a start of the list. -/
theorem exists_limitTasks_append (tasks : List Task) (limit : Option Int) :
    ∃ left, limitTasks tasks limit ++ left = tasks := by
  by_cases h : ∀ n, limit = some n → n ≤ 0
  · exact ⟨[], by rw [limitTasks_of_not_pos h, List.append_nil]⟩
  · simp only [not_forall] at h
    obtain ⟨n, rfl, hn⟩ := h
    have hpos : 0 < n := Int.not_le.mp hn
    exact ⟨tasks.drop n.toNat, by rw [limitTasks_of_pos hpos, List.take_append_drop]⟩

/-- The answer to a query is the start of the one arrangement of the matching tasks, as long as the
limit says, and the whole of it when there is no positive limit. Every matching task is kept or left
out, as often as it was found, and none that is left out comes ahead of one that is kept. -/
theorem applyQuery_eq_start_of_arrangement (tasks : List Task) (spec : Spec) :
    ∃ arranged left,
      (∀ other, spec.Arranges (filterTasks tasks spec) other ↔ other = arranged) ∧
      (∀ n, spec.limit = some n → 0 < n → applyQuery tasks spec = arranged.take n.toNat) ∧
      ((∀ n, spec.limit = some n → n ≤ 0) → applyQuery tasks spec = arranged) ∧
      applyQuery tasks spec ++ left = arranged ∧
      (applyQuery tasks spec ++ left).Perm (filterTasks tasks spec) ∧
      (filterTasks tasks spec).Sublist tasks ∧
      ∀ sort, spec.sort = some sort →
        ∀ kept ∈ applyQuery tasks spec, ∀ other ∈ left, ¬ sort.Ahead other kept := by
  let found := filterTasks tasks spec
  -- Without an order to sort by, the tasks stand as they were found.
  let arranged := spec.sort.elim found (sortTasks found)
  have harranged : spec.Arranges found arranged := Spec.arranges_iff.mpr rfl
  have hanswer : applyQuery tasks spec = limitTasks arranged spec.limit := rfl
  obtain ⟨left, hleft⟩ := exists_limitTasks_append arranged spec.limit
  rw [← hanswer] at hleft
  refine ⟨arranged, left, fun other => Spec.arranges_iff, ?_, ?_, hleft, ?_,
    filterTasks_sublist tasks spec, ?_⟩
  · intro n hn hpos
    rw [hanswer, hn, limitTasks_of_pos hpos]
  · intro hlimit
    rw [hanswer, limitTasks_of_not_pos hlimit]
  · rw [hleft]
    exact harranged.perm
  · intro sort hsort
    have hordered := harranged.ordered hsort
    rw [← hleft, List.pairwise_append] at hordered
    exact hordered.2.2

end Checklist
