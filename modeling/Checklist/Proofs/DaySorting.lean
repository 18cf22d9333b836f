import Checklist.Proofs.CalendarOrder
import Checklist.Proofs.ParsedTask
import Checklist.Proofs.SortedViews
import Checklist.Notes.Record

/-!
# Sorting by day — the texts of dates and the calendar

Tasks are sorted by the texts of their dates. Numbers that are written to one width compare as
their digits do, whatever follows them (`le_fixedDigits_append`), so the text of the earlier day
comes first (`Date.le_iso_iff`). The dates of tasks that are read off lines are texts of days, so
sorting such tasks by a date puts them in the order of the calendar (`sortTasks_byDay`). A task
without a date has the key of the last day.
-/

namespace Checklist

open Text

namespace Text

theorem le_cons (c : Char) (s t : Text) : le (c :: s) (c :: t) = le s t := if_pos rfl

/-- What two texts begin with alike does not decide between them. -/
theorem le_append_left (s t u : Text) : le (s ++ t) (s ++ u) = le t u := by
  induction s with
  | nil => rfl
  | cons c s ih => rw [List.cons_append, List.cons_append, le_cons, ih]

theorem le_cons_digitChar_of_lt {k l : Nat} (hkl : k < l) (hl : l < 10) (s t : Text) :
    le (Nat.digitChar k :: s) (Nat.digitChar l :: t) = true := by
  have hall : ∀ l < 10, ∀ k < l, Nat.digitChar k ≠ Nat.digitChar l ∧
      charLe (Nat.digitChar k) (Nat.digitChar l) = true := by decide
  obtain ⟨hne, hle⟩ := hall l hl k hkl
  exact (if_neg hne).trans hle

/-- Of two numbers that are written to one width the smaller one comes first, whatever follows. -/
theorem le_fixedDigits_append {width m n : Nat} (h : m % 10 ^ width < n % 10 ^ width)
    (s t : Text) : le (fixedDigits 10 width m ++ s) (fixedDigits 10 width n ++ t) = true := by
  induction width generalizing m n with
  | zero => simp [Nat.mod_one] at h
  | succ width ih =>
      rw [Nat.mod_pow_succ, Nat.mod_pow_succ] at h
      rw [fixedDigits_succ_eq_cons, fixedDigits_succ_eq_cons, List.cons_append, List.cons_append]
      have hn : n / 10 ^ width % 10 < 10 := Nat.mod_lt _ (by decide)
      have hm : m % 10 ^ width < 10 ^ width := Nat.mod_lt _ (Nat.pow_pos (by decide))
      have hn' : n % 10 ^ width < 10 ^ width := Nat.mod_lt _ (Nat.pow_pos (by decide))
      generalize m / 10 ^ width % 10 = k at h ⊢
      generalize n / 10 ^ width % 10 = l at h hn ⊢
      rcases Nat.lt_trichotomy k l with hkl | rfl | hlk
      · exact le_cons_digitChar_of_lt hkl hn _ _
      · rw [le_cons]
        exact ih (Nat.lt_of_add_lt_add_right h)
      · have hstep : 10 ^ width * l + 10 ^ width ≤ 10 ^ width * k :=
          Nat.mul_succ _ _ ▸ Nat.mul_le_mul_left _ hlk
        omega

end Text

/-! ## The texts of days -/

namespace Date

theorem iso_injective {a b : Date} (h : a.iso = b.iso) : a = b := by
  have hread := ofIso?_iso a
  rw [h, ofIso?_iso b] at hread
  exact (Option.some.inj hread).symm

/-- The text of the earlier day comes first. -/
theorem le_iso_of_before {a b : Date} (h : a.Before b) : Text.le a.iso b.iso = true := by
  obtain ⟨hayear, hamonth, haday⟩ := mod_width a
  obtain ⟨hbyear, hbmonth, hbday⟩ := mod_width b
  rw [iso_eq, iso_eq]
  rcases h with hyear | ⟨hyear, hmonth | ⟨hmonth, hday⟩⟩
  · exact le_fixedDigits_append (by rwa [hayear, hbyear]) _ _
  · rw [hyear, le_append_left, le_cons]
    exact le_fixedDigits_append (by rwa [hamonth, hbmonth]) _ _
  · rw [hyear, hmonth, le_append_left, le_cons, le_append_left, le_cons]
    have hdigits : Text.le (fixedDigits 10 2 a.day ++ []) (fixedDigits 10 2 b.day ++ []) = true :=
      le_fixedDigits_append (by rwa [haday, hbday]) [] []
    rwa [List.append_nil, List.append_nil] at hdigits

/-- Texts of days are ordered as the days are. -/
theorem le_iso_iff {a b : Date} : Text.le a.iso b.iso = true ↔ ¬ b.Before a := by
  rcases before_trichotomy a b with h | rfl | h
  · exact iff_of_true (le_iso_of_before h) h.asymm
  · exact iff_of_true (by simpa using Text.le_total a.iso a.iso) (not_before_self a)
  · refine iff_of_false ?_ (not_not_intro h)
    intro hle
    exact h.ne (iso_injective (Text.le_antisymm (le_iso_of_before h) hle))

end Date

/-! ## The days of tasks -/

/-- The order that goes by this kind of date. -/
def DateKind.sortField? : DateKind → Option SortField
  | .due => some .due
  | .start => some .start
  | _ => none

/-- The day that a date of the task names. -/
def Task.day? (kind : DateKind) (t : Task) : Option Date := (t.dates.get kind).bind Date.ofIso?

variable {kind : DateKind} {field : SortField} {t : Task}

/-- The dates of a readable task are the texts of their days. -/
theorem Task.Readable.get_eq (h : t.Readable) (kind : DateKind) :
    t.dates.get kind = (t.day? kind).map Date.iso := by
  cases hdate : t.dates.get kind with
  | none => simp [Task.day?, hdate]
  | some written =>
      obtain ⟨day, rfl⟩ := h.date kind written hdate
      simp [Task.day?, hdate, Date.ofIso?_iso]

theorem dateKey_iso (day : Date) : dateKey (some day.iso) = .text day.iso := by
  cases hiso : day.iso with
  | nil => exact absurd day.length_iso (by simp [hiso])
  | cons c s => rfl

/-- The key of a readable task is the text of its day; without a day it is that of the last one. -/
theorem Task.Readable.key_eq (h : t.Readable) (hfield : kind.sortField? = some field) :
    field.key t = .text ((t.day? kind).getD .last).iso := by
  have hkey : field.key t = dateKey (t.dates.get kind) := by
    cases kind with
    | due =>
        obtain rfl := Option.some.inj hfield
        rfl
    | start =>
        obtain rfl := Option.some.inj hfield
        rfl
    | _ => exact absurd hfield (by simp [DateKind.sortField?])
  rw [hkey, h.get_eq]
  cases t.day? kind with
  | none => decide
  | some day => exact dateKey_iso day

theorem readable_of_mem_parseRecords {codec : Codec} {records : List Record}
    (ht : t ∈ codec.parseRecords records) : t.Readable := by
  obtain ⟨r, -, hparse⟩ := List.mem_filterMap.mp ht
  exact readable_of_parse hparse

/-- Readable tasks that are sorted by a date are sorted by their days. -/
theorem sortedBy_day {tasks : List Task} (hfield : kind.sortField? = some field)
    (hreadable : ∀ t ∈ tasks, t.Readable) (direction : SortDirection) :
    SortedBy (fun t => (t.day? kind).getD .last) Date.Before direction tasks
      (sortTasks tasks ⟨field, direction⟩) := by
  refine sortedBy_sortTasks Date.not_before_self ?_ direction
  intro a ha b hb
  rw [(hreadable a ha).key_eq hfield, (hreadable b hb).key_eq hfield]
  exact Date.le_iso_iff

/-- Tasks that name the same day, or none, stay in the order they came in. -/
theorem filter_day_sortTasks {tasks : List Task} (hfield : kind.sortField? = some field)
    (hreadable : ∀ t ∈ tasks, t.Readable) (direction : SortDirection) (seen : Option Date) :
    (sortTasks tasks ⟨field, direction⟩).filter (·.day? kind = seen) =
      tasks.filter (·.day? kind = seen) := by
  refine (SortSpec.sortTasks_arranges ⟨field, direction⟩ tasks).filter_eq
    (.text (seen.getD .last).iso) ?_
  intro t ht hseen
  rw [(hreadable t ht).key_eq hfield, of_decide_eq_true hseen]

/-- **Parsed tasks are sorted by date in the order of the calendar.** Of the tasks that any records
write, each names a day by the text of its date or has no date at all. Sorted by that date they are
the same tasks, and those that name the same day, or none, stand as they came. In ascending order no
task stands ahead of one with an earlier day, and no task without a day ahead of one with a day
before the last; in descending order none stands behind. -/
theorem sortTasks_byDay (hfield : kind.sortField? = some field) (codec : Codec)
    (records : List Record) :
    let tasks := codec.parseRecords records
    let ascending := sortTasks tasks ⟨field, .ascending⟩
    let descending := sortTasks tasks ⟨field, .descending⟩
    (∀ t ∈ tasks, t.dates.get kind = (t.day? kind).map Date.iso) ∧
      (ascending.Perm tasks ∧ descending.Perm tasks) ∧
      (∀ seen : Option Date,
        ascending.filter (·.day? kind = seen) = tasks.filter (·.day? kind = seen) ∧
        descending.filter (·.day? kind = seen) = tasks.filter (·.day? kind = seen)) ∧
      (ascending.Pairwise fun a b => ∀ day, b.day? kind = some day →
        (∀ ahead, a.day? kind = some ahead → ¬ day.Before ahead) ∧
        (a.day? kind = none → ¬ day.Before .last)) ∧
      descending.Pairwise fun a b => ∀ day, a.day? kind = some day →
        (∀ behind, b.day? kind = some behind → ¬ day.Before behind) ∧
        (b.day? kind = none → ¬ day.Before .last) := by
  intro tasks ascending descending
  have hreadable : ∀ t ∈ tasks, t.Readable := fun _ ht => readable_of_mem_parseRecords ht
  -- One arrangement for each direction; the rest is what an allowed pair says of two days.
  have hup := sortedBy_day hfield hreadable .ascending
  have hdown := sortedBy_day hfield hreadable .descending
  refine ⟨fun t ht => (hreadable t ht).get_eq kind, ⟨hup.perm, hdown.perm⟩, ?_, ?_, ?_⟩
  · exact fun seen => ⟨filter_day_sortTasks hfield hreadable .ascending seen,
      filter_day_sortTasks hfield hreadable .descending seen⟩
  · refine hup.ordered.imp fun {a b} hab day hday => ?_
    rw [SortDirection.Allows, hday] at hab
    refine ⟨fun ahead hahead => ?_, fun hnone => ?_⟩
    · rwa [hahead] at hab
    · rwa [hnone] at hab
  · refine hdown.ordered.imp fun {a b} hab day hday => ?_
    rw [SortDirection.Allows, hday] at hab
    refine ⟨fun behind hbehind => ?_, fun hnone => ?_⟩
    · rwa [hbehind] at hab
    · rwa [hnone] at hab

/-- Four lines: two with a date, in February of a leap year and in March, one without, and one that
is no item. -/
def chores : List Record :=
  [⟨['1'], "- [ ] Sweep 📅2024-03-01".toList, {}⟩, ⟨['2'], "- [ ] Read".toList, {}⟩,
    ⟨['3'], "3. [x] 🔼 Pay 📅 2024-02-29 #home#".toList, {}⟩, ⟨['4'], "No item".toList, {}⟩]

/-- The chores by their due dates: the task of February is not behind that of March, and the task
without a date is behind both, or ahead of both when the order is turned round. -/
theorem sortTasks_byDay_chores :
    DateKind.due.sortField? = some .due ∧
      let tasks := (Codec.mk .wrapped .first).parseRecords chores
      tasks.map (·.day? .due) =
        [some ⟨2024, 3, 1, by decide⟩, none, some ⟨2024, 2, 29, by decide⟩] ∧
      (sortTasks tasks ⟨.due, .ascending⟩).Perm tasks ∧
      ((sortTasks tasks ⟨.due, .ascending⟩).Pairwise fun a b => ∀ day, b.day? .due = some day →
        (∀ ahead, a.day? .due = some ahead → ¬ day.Before ahead) ∧
        (a.day? .due = none → ¬ day.Before .last)) ∧
      (sortTasks tasks ⟨.due, .descending⟩).Pairwise fun a b => ∀ day, a.day? .due = some day →
        (∀ behind, b.day? .due = some behind → ¬ day.Before behind) ∧
        (b.day? .due = none → ¬ day.Before .last) := by
  obtain ⟨-, hperm, -, hup, hdown⟩ :=
    sortTasks_byDay (rfl : DateKind.due.sortField? = some .due) (Codec.mk .wrapped .first) chores
  exact ⟨rfl, by decide +kernel, hperm.1, hup, hdown⟩

end Checklist
