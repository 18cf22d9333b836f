import Checklist.Proofs.CalendarOrder

/-!
# Day numbers — the day that has a number

The days of the calendar take the numbers from 1 to that of the last day, each exactly one
(`exists_ordinal_eq`, `ordinal_injective`). `ofOrdinal?` finds the day of a number
(`ofOrdinal?_ordinal`): the year that is guessed from the average length of a year is at most one
off, and the days before it tell which way (`yearOfOrdinal_eq`); the month is found by going through
the months in order (`monthAndDay?_eq`). For all other numbers it finds nothing
(`ofOrdinal?_eq_some_iff`).
-/

namespace Checklist

namespace Date

theorem ordinal_injective {a b : Date} (h : a.ordinal = b.ordinal) : a = b := by
  rcases before_trichotomy a b with hab | hab | hba
  · exact absurd h (Nat.ne_of_lt (ordinal_lt_of_before hab))
  · exact hab
  · exact absurd h.symm (Nat.ne_of_lt (ordinal_lt_of_before hba))

/-- Every number from 1 to that of the last day is the number of a day. -/
theorem exists_ordinal_eq {n : Nat} (hfirst : 1 ≤ n) (hlast : n ≤ last.ordinal) :
    ∃ d : Date, d.ordinal = n := by
  induction hfirst with
  | refl => exact ⟨first, by decide⟩
  | step _ ih =>
      obtain ⟨d, rfl⟩ := ih (Nat.le_of_succ_le hlast)
      obtain ⟨next, hnext⟩ := exists_next? (before_iff_ordinal_lt.mpr hlast)
      exact ⟨next, ordinal_next? hnext⟩

theorem ordinal_pos (d : Date) : 1 ≤ d.ordinal := by
  obtain ⟨-, -, hday, -⟩ := d.valid
  rw [ordinal]
  omega

theorem ordinal_le_last (d : Date) : d.ordinal ≤ last.ordinal :=
  Nat.not_lt.mp fun h => not_last_before d (before_iff_ordinal_lt.mpr h)

/-! ## The year -/

/-- The days before a year are within two days of what the average length of a year gives. -/
theorem daysBeforeYear_bounds (n : Nat) :
    146097 * n ≤ 400 * daysBeforeYear (n + 1) + 699 ∧
      400 * daysBeforeYear (n + 1) ≤ 146097 * n + 396 := by
  rw [daysBeforeYear, Nat.add_sub_cancel]
  omega

/-- A day falls in the year whose days its number is among. -/
theorem yearOfOrdinal_eq {year n : Nat} (hyear : 1 ≤ year) (hstart : daysBeforeYear year < n)
    (hend : n ≤ daysBeforeYear (year + 1)) : yearOfOrdinal n = year := by
  obtain ⟨y, rfl⟩ := Nat.exists_eq_add_of_le' hyear
  obtain ⟨hlow, -⟩ := daysBeforeYear_bounds y
  obtain ⟨-, hhigh⟩ := daysBeforeYear_bounds (y + 1)
  -- The guess is the year, the one before it or the one behind it.
  have hguess : n * 400 / 146097 + 1 = y ∨ n * 400 / 146097 = y ∨ n * 400 / 146097 = y + 1 := by
    omega
  rw [yearOfOrdinal]
  rcases hguess with hguess | hguess | hguess
  · have hbefore : ¬ n ≤ daysBeforeYear (n * 400 / 146097 + 1) := by
      rw [hguess]
      have hmono : daysBeforeYear y ≤ daysBeforeYear (y + 1) :=
        daysBeforeYear_mono (by omega) (Nat.le_succ y)
      omega
    rw [if_neg hbefore, hguess, if_pos hstart]
  · rw [hguess, if_neg (Nat.not_le.mpr hstart), if_neg (Nat.not_lt.mpr hend)]
  · rw [hguess, if_pos hend, Nat.add_sub_cancel]

/-! ## The month and the day -/

/-- Among the months behind the first ones, the month is found in which the day lies. -/
theorem monthAndDay?_eq {year before count month day n : Nat} (hbefore : before ≤ month)
    (hcount : month < before + count) (hday : 1 ≤ day) (hdays : day ≤ daysInMonth year (month + 1))
    (hn : daysThrough year before + n = daysThrough year month + day) :
    monthAndDay? year (List.range' (before + 1) count) n = some (month + 1, day) := by
  induction count generalizing before n with
  | zero => omega
  | succ count ih =>
      rw [List.range'_succ, monthAndDay?]
      rcases Nat.eq_or_lt_of_le hbefore with rfl | hlt
      · obtain rfl : n = day := by omega
        rw [if_pos hdays]
      · have hmonths : daysThrough year before + daysInMonth year (before + 1) ≤
            daysThrough year month := daysThrough_mono year hlt
        rw [if_neg (by omega)]
        refine ih hlt (by omega) ?_
        rw [daysThrough]
        omega

/-- A day is found by its number. -/
theorem ofOrdinal?_ordinal (d : Date) : ofOrdinal? d.ordinal = some d := by
  obtain ⟨⟨hyear, -⟩, ⟨hmonth, hmonths⟩, hday, hdays⟩ := d.valid
  obtain ⟨hstart, hend, hnext⟩ := d.ordinal_bounds
  obtain ⟨m, hm⟩ := Nat.exists_eq_add_of_le' hmonth
  have hfound : yearOfOrdinal d.ordinal = d.year :=
    yearOfOrdinal_eq hyear (Nat.lt_of_le_of_lt (Nat.le_add_right _ _) hstart)
      (Nat.le_trans hend hnext)
  have hcalendar : monthAndDay? d.year (List.range' 1 12)
      (d.ordinal - daysBeforeYear d.year) = some (d.month, d.day) := by
    rw [hm] at hmonths hdays ⊢
    refine monthAndDay?_eq (Nat.zero_le m) (by omega) hday hdays ?_
    rw [ordinal, hm, daysThrough, Nat.add_sub_cancel]
    omega
  rw [ofOrdinal?, hfound]
  simp only [hcalendar, Option.bind_some]
  exact of?_self d

/-- A number behind the last day falls in no year of the calendar. -/
theorem lt_yearOfOrdinal {n : Nat} (h : last.ordinal < n) : 9999 < yearOfOrdinal n := by
  have hlast : last.ordinal = 3652059 := by decide
  have hyears : daysBeforeYear 10000 = 3652059 := by decide
  -- The guess is 10000 or more, and it is lowered only where the number lies ahead of its year.
  rw [yearOfOrdinal]
  split
  · next hle =>
      have hne : n * 400 / 146097 + 1 ≠ 10000 := by
        intro heq
        rw [heq, hyears] at hle
        omega
      omega
  · split <;> omega

/-- A number is that of the day it finds, and the numbers outside the calendar find none. -/
theorem ofOrdinal?_eq_some_iff {n : Nat} {d : Date} :
    ofOrdinal? n = some d ↔ d.ordinal = n := by
  constructor
  · intro h
    by_cases hcalendar : 1 ≤ n ∧ n ≤ last.ordinal
    · obtain ⟨day, rfl⟩ := exists_ordinal_eq hcalendar.1 hcalendar.2
      rw [ofOrdinal?_ordinal] at h
      rw [Option.some.inj h]
    · obtain ⟨⟨month, day⟩, -, hday⟩ := Option.bind_eq_some_iff.mp h
      obtain ⟨hyear, -⟩ := of?_eq_some_iff.mp hday
      obtain ⟨⟨hfirst, hlast⟩, -⟩ := d.valid
      rcases Nat.eq_zero_or_pos n with rfl | hpos
      · have hzero : yearOfOrdinal 0 = 0 := by decide
        omega
      · have hbehind := lt_yearOfOrdinal (n := n) (by omega)
        omega
  · rintro rfl
    exact ofOrdinal?_ordinal d

end Date

end Checklist
