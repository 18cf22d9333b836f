import Checklist.Proofs.Sorting

/-!
# Sorted views — orders by what the keys stand for

Tasks are sorted by texts and numbers, but what these stand for are days and moments. A list is
*sorted by* a view of its tasks when the views follow one another in their own order and tasks of
which the same is seen stand as they came (`SortedBy`). Where the keys compare as the views do,
sorting by the keys is sorting by the views (`sortedBy_sortTasks`); so it is where the keys are
numbers that count the views (`sortedBy_of_count`).
-/

namespace Checklist

variable {α : Type} {earlier : α → α → Prop}

/-- Whether the direction lets the first thing stand ahead of the second. -/
def SortDirection.Allows (direction : SortDirection) (earlier : α → α → Prop) (a b : α) : Prop :=
  match direction with
  | .ascending => ¬ earlier b a
  | .descending => ¬ earlier a b

/-- The second list holds the tasks of the first one in the order of what is seen of them, and tasks
of which the same is seen stand in it as they stand in the first. -/
structure SortedBy [DecidableEq α] (view : Task → α) (earlier : α → α → Prop)
    (direction : SortDirection) (tasks sorted : List Task) : Prop where
  perm : sorted.Perm tasks
  ordered : sorted.Pairwise fun a b => direction.Allows earlier (view a) (view b)
  ties : ∀ v, sorted.filter (view · = v) = tasks.filter (view · = v)

namespace SortSpec

variable {sort : SortSpec} {tasks sorted : List Task}

/-- Among the tasks with one key an arrangement moves none. -/
theorem Arranges.filter_eq (h : sort.Arranges tasks sorted) {p : Task → Bool} (key : SortKey)
    (hp : ∀ t ∈ tasks, p t = true → sort.field.key t = key) :
    sorted.filter p = tasks.filter p := by
  have hall (l : List Task) (hl : ∀ t ∈ l, t ∈ tasks) :
      l.filter p = (l.filter (sort.field.key · = key)).filter p := by
    rw [List.filter_filter]
    refine List.filter_congr fun t ht => ?_
    cases hpt : p t with
    | false => rfl
    | true => simp [hp t (hl t ht) hpt]
  rw [hall sorted fun t ht => h.perm.mem_iff.mp ht, hall tasks fun _ ht => ht, h.stable key]

end SortSpec

/-- Where keys compare as views do, sorting by the keys sorts by the views. -/
theorem sortedBy_sortTasks [DecidableEq α] {view : Task → α} {field : SortField}
    {tasks : List Task} (hirrefl : ∀ v, ¬ earlier v v)
    (hkey : ∀ a ∈ tasks, ∀ b ∈ tasks,
      (field.key a).le (field.key b) = true ↔ ¬ earlier (view b) (view a))
    (direction : SortDirection) :
    SortedBy view earlier direction tasks (sortTasks tasks ⟨field, direction⟩) := by
  have harranges := SortSpec.sortTasks_arranges ⟨field, direction⟩ tasks
  have hmem {t : Task} (ht : t ∈ sortTasks tasks ⟨field, direction⟩) : t ∈ tasks :=
    harranges.perm.mem_iff.mp ht
  refine ⟨harranges.perm, ?_, ?_⟩
  · refine harranges.ordered.imp_of_mem fun {a b} ha hb hab => ?_
    have hle := SortSpec.not_ahead_iff.mp hab
    cases direction with
    | ascending => exact (hkey a (hmem ha) b (hmem hb)).mp hle
    | descending => exact (hkey b (hmem hb) a (hmem ha)).mp hle
  · intro v
    -- Tasks of which the same is seen have one key, which is that of any of them.
    have hsame {a b : Task} (ha : a ∈ tasks) (hb : b ∈ tasks) (hview : view a = view b) :
        field.key a = field.key b :=
      SortKey.le_antisymm ((hkey a ha b hb).mpr (hview ▸ hirrefl _))
        ((hkey b hb a ha).mpr (hview ▸ hirrefl _))
    by_cases hseen : ∃ t ∈ tasks, view t = v
    · obtain ⟨t, ht, rfl⟩ := hseen
      exact harranges.filter_eq (field.key t) fun u hu hut => hsame hu ht (of_decide_eq_true hut)
    · have hnone : ∀ t ∈ tasks, view t ≠ v := fun t ht hv => hseen ⟨t, ht, hv⟩
      rw [List.filter_eq_nil_iff.mpr fun t ht => by simpa using hnone t (hmem ht),
        List.filter_eq_nil_iff.mpr fun t ht => by simpa using hnone t ht]

/-- Where the keys are numbers that grow from an earlier view to a later one, sorting by the keys
sorts by the views. -/
theorem sortedBy_of_count [DecidableEq α] {view : Task → α} {field : SortField}
    {tasks : List Task} (count : α → Int) (hcount : ∀ v w, earlier v w ↔ count v < count w)
    (hkey : ∀ t ∈ tasks, field.key t = .number (count (view t))) (direction : SortDirection) :
    SortedBy view earlier direction tasks (sortTasks tasks ⟨field, direction⟩) := by
  refine sortedBy_sortTasks (fun v => by rw [hcount]; exact Int.lt_irrefl _) ?_ direction
  intro a ha b hb
  rw [hkey a ha, hkey b hb, hcount, Int.not_lt, SortKey.le, decide_eq_true_iff,
    Rat.intCast_le_intCast]

end Checklist
