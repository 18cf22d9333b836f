import Checklist.Calendar.Date

/-!
# The order of days — years, months and days, and the day after

Days follow one another as their years do, within a year as their months do, and within a month as
their numbers do (`Date.Before`). Counting days gives the same order (`before_iff_ordinal_lt`): the
months of a year fill the days between its first one and the first one of the next year
(`daysBeforeYear_succ`), and a day of a month lies within the days of that month
(`ordinal_bounds`). The day after takes the next number (`ordinal_next?`), so no day lies between
the two (`next?_eq_some_iff`), and only the last day of the calendar has none (`exists_next?`).
-/

namespace Checklist

namespace Date

/-- The first day comes earlier in the calendar than the second. -/
def Before (a b : Date) : Prop :=
  a.year < b.year ∨
    a.year = b.year ∧ (a.month < b.month ∨ a.month = b.month ∧ a.day < b.day)

instance (a b : Date) : Decidable (a.Before b) :=
  inferInstanceAs (Decidable (a.year < b.year ∨
    a.year = b.year ∧ (a.month < b.month ∨ a.month = b.month ∧ a.day < b.day)))

/-- The second day is the next one: no day lies between the two. -/
def Precedes (a b : Date) : Prop := a.Before b ∧ ∀ d, ¬ (a.Before d ∧ d.Before b)

/-- The last day of the calendar. -/
def last : Date := ⟨9999, 12, 31, by decide⟩

theorem ext {a b : Date} (hyear : a.year = b.year) (hmonth : a.month = b.month)
    (hday : a.day = b.day) : a = b := by
  obtain ⟨y, m, d, _⟩ := a
  obtain ⟨y', m', d', _⟩ := b
  obtain rfl : y = y' := hyear
  obtain rfl : m = m' := hmonth
  obtain rfl : d = d' := hday
  rfl

/-- Of two days one comes earlier, unless they are the same. -/
theorem before_trichotomy (a b : Date) : a.Before b ∨ a = b ∨ b.Before a := by
  rcases Nat.lt_trichotomy a.year b.year with hyear | hyear | hyear
  · exact .inl (.inl hyear)
  · rcases Nat.lt_trichotomy a.month b.month with hmonth | hmonth | hmonth
    · exact .inl (.inr ⟨hyear, .inl hmonth⟩)
    · rcases Nat.lt_trichotomy a.day b.day with hday | hday | hday
      · exact .inl (.inr ⟨hyear, .inr ⟨hmonth, hday⟩⟩)
      · exact .inr (.inl (ext hyear hmonth hday))
      · exact .inr (.inr (.inr ⟨hyear.symm, .inr ⟨hmonth.symm, hday⟩⟩))
    · exact .inr (.inr (.inr ⟨hyear.symm, .inl hmonth⟩))
  · exact .inr (.inr (.inl hyear))

/-! ## Counting days -/

/-- Eleven months have the same days in every year. -/
theorem daysThrough_december (year : Nat) : daysThrough year 12 = 337 + daysInMonth year 2 := by
  simp [daysThrough, daysInMonth]
  omega

theorem daysInMonth_february (year : Nat) :
    daysInMonth year 2 = if 4 ∣ year ∧ (¬ 100 ∣ year ∨ 400 ∣ year) then 29 else 28 := by
  simp [daysInMonth, isLeapYear, Nat.dvd_iff_mod_eq_zero]

/-- A year has as many days as its months together. -/
theorem daysBeforeYear_succ {year : Nat} (h : 1 ≤ year) :
    daysBeforeYear (year + 1) = daysBeforeYear year + daysThrough year 12 := by
  obtain ⟨n, rfl⟩ := Nat.exists_eq_add_of_le' h
  have hle : n / 100 ≤ n / 4 := Nat.div_le_div_left (by decide) (by decide)
  have hcentury : 100 ∣ n + 1 → 4 ∣ n + 1 := Nat.dvd_trans (by decide)
  have hera : 400 ∣ n + 1 → 100 ∣ n + 1 := Nat.dvd_trans (by decide)
  rw [daysThrough_december, daysInMonth_february, daysBeforeYear, daysBeforeYear]
  -- One more year moves on those of the three quotients whose divisor it meets.
  simp only [Nat.add_sub_cancel, Nat.succ_div]
  generalize n / 4 = fours at *
  generalize n / 100 = centuries at *
  generalize n / 400 = eras at *
  by_cases h4 : 4 ∣ n + 1
  · by_cases h100 : 100 ∣ n + 1
    · by_cases h400 : 400 ∣ n + 1 <;> simp [h4, h100, h400] <;> omega
    · have h400 : ¬ 400 ∣ n + 1 := fun h => h100 (hera h)
      simp [h4, h100, h400]
      omega
  · have h100 : ¬ 100 ∣ n + 1 := fun h => h4 (hcentury h)
    have h400 : ¬ 400 ∣ n + 1 := fun h => h100 (hera h)
    simp [h4, h100, h400]
    omega

theorem daysBeforeYear_mono {year later : Nat} (h : 1 ≤ year) (hle : year ≤ later) :
    daysBeforeYear year ≤ daysBeforeYear later := by
  induction hle with
  | refl => exact Nat.le_refl _
  | @step later hle ih =>
      rw [daysBeforeYear_succ (Nat.le_trans h hle)]
      exact Nat.le_trans ih (Nat.le_add_right _ _)

theorem daysThrough_mono (year : Nat) {month later : Nat} (hle : month ≤ later) :
    daysThrough year month ≤ daysThrough year later := by
  induction hle with
  | refl => exact Nat.le_refl _
  | step hle ih => exact Nat.le_trans ih (Nat.le_add_right _ _)

/-- The days of a month end where those of the next one begin. -/
theorem daysThrough_month (d : Date) :
    daysThrough d.year d.month =
      daysThrough d.year (d.month - 1) + daysInMonth d.year d.month := by
  obtain ⟨-, ⟨hmonth, -⟩, -⟩ := d.valid
  obtain ⟨m, hm⟩ := Nat.exists_eq_add_of_le' hmonth
  rw [hm, Nat.add_sub_cancel, daysThrough]

/-- A day lies within the days of its month, and these within the days of its year. -/
theorem ordinal_bounds (d : Date) :
    daysBeforeYear d.year + daysThrough d.year (d.month - 1) < d.ordinal ∧
      d.ordinal ≤ daysBeforeYear d.year + daysThrough d.year d.month ∧
      daysBeforeYear d.year + daysThrough d.year d.month ≤ daysBeforeYear (d.year + 1) := by
  obtain ⟨⟨hyear, -⟩, ⟨-, hmonth⟩, hday, hlength⟩ := d.valid
  have hyears := daysBeforeYear_succ hyear
  have hmonths := daysThrough_mono d.year hmonth
  have hthis := daysThrough_month d
  rw [ordinal]
  omega

/-- The day that comes earlier has the smaller number. -/
theorem ordinal_lt_of_before {a b : Date} (h : a.Before b) : a.ordinal < b.ordinal := by
  obtain ⟨-, hend, hyearEnd⟩ := a.ordinal_bounds
  obtain ⟨hstart, -, -⟩ := b.ordinal_bounds
  obtain ⟨⟨hyear, -⟩, -, -⟩ := a.valid
  rcases h with hyears | ⟨hyears, hmonths | ⟨hmonths, hdays⟩⟩
  · have hyears : daysBeforeYear (a.year + 1) ≤ daysBeforeYear b.year :=
      daysBeforeYear_mono (Nat.le_succ_of_le hyear) hyears
    omega
  · have := daysThrough_mono b.year (Nat.le_sub_one_of_lt hmonths)
    rw [hyears] at hend
    omega
  · rw [ordinal, ordinal, hyears, hmonths]
    omega

/-- Counting days and comparing their dates give one order. -/
theorem before_iff_ordinal_lt {a b : Date} : a.Before b ↔ a.ordinal < b.ordinal := by
  refine ⟨ordinal_lt_of_before, fun h => ?_⟩
  rcases before_trichotomy a b with hab | rfl | hba
  · exact hab
  · exact absurd h (Nat.lt_irrefl _)
  · exact absurd (ordinal_lt_of_before hba) (Nat.lt_asymm h)

theorem lt_iff_before {a b : Date} : a < b ↔ a.Before b := before_iff_ordinal_lt.symm

theorem le_iff_not_before {a b : Date} : a ≤ b ↔ ¬ b.Before a := by
  rw [before_iff_ordinal_lt, Nat.not_lt]
  exact Iff.rfl

theorem Before.asymm {a b : Date} (h : a.Before b) : ¬ b.Before a := fun hba =>
  Nat.lt_asymm (ordinal_lt_of_before h) (ordinal_lt_of_before hba)

theorem not_before_self (d : Date) : ¬ d.Before d := fun h => h.asymm h

theorem Before.ne {a b : Date} (h : a.Before b) : a ≠ b := by
  rintro rfl
  exact a.not_before_self h

theorem Before.trans {a b c : Date} (hab : a.Before b) (hbc : b.Before c) : a.Before c :=
  before_iff_ordinal_lt.mpr (Nat.lt_trans (ordinal_lt_of_before hab) (ordinal_lt_of_before hbc))

/-! ## The day after -/

theorem exists_of? {year month day : Nat} (h : (1 ≤ year ∧ year ≤ 9999) ∧ (1 ≤ month ∧ month ≤ 12) ∧
    (1 ≤ day ∧ day ≤ daysInMonth year month)) : ∃ d, of? year month day = some d :=
  ⟨⟨year, month, day, h⟩, dif_pos h⟩

/-- Every month has a first day. -/
theorem one_le_daysInMonth (year month : Nat) : 1 ≤ daysInMonth year month := by
  rw [daysInMonth]
  split
  · split <;> decide
  · split <;> decide

/-- The day after stands in the same month, or it begins the next month or the next year. -/
theorem next?_cases (d : Date) :
    (d.day < daysInMonth d.year d.month ∧ d.next? = of? d.year d.month (d.day + 1)) ∨
      (d.day = daysInMonth d.year d.month ∧ d.month < 12 ∧
        d.next? = of? d.year (d.month + 1) 1) ∨
      (d.day = daysInMonth d.year d.month ∧ d.month = 12 ∧ d.next? = of? (d.year + 1) 1 1) := by
  obtain ⟨-, ⟨-, hmonths⟩, -, hdays⟩ := d.valid
  rw [next?]
  by_cases hday : d.day < daysInMonth d.year d.month
  · exact .inl ⟨hday, if_pos hday⟩
  · have hend : d.day = daysInMonth d.year d.month := Nat.le_antisymm hdays (Nat.not_lt.mp hday)
    rw [if_neg hday]
    by_cases hmonth : d.month < 12
    · exact .inr (.inl ⟨hend, hmonth, if_pos hmonth⟩)
    · exact .inr (.inr ⟨hend, Nat.le_antisymm hmonths (Nat.not_lt.mp hmonth), if_neg hmonth⟩)

/-- The day after takes the next number. -/
theorem ordinal_next? {d next : Date} (h : d.next? = some next) :
    next.ordinal = d.ordinal + 1 := by
  obtain ⟨⟨hyear, -⟩, ⟨hmonth, -⟩, -, -⟩ := d.valid
  have hthis := daysThrough_month d
  rcases d.next?_cases with ⟨-, hnext⟩ | ⟨hend, -, hnext⟩ | ⟨hend, hdecember, hnext⟩
  · obtain ⟨hy, hm, hd⟩ := of?_eq_some_iff.mp (hnext.symm.trans h)
    rw [ordinal, ordinal, hy, hm, hd]
    omega
  · obtain ⟨hy, hm, hd⟩ := of?_eq_some_iff.mp (hnext.symm.trans h)
    rw [ordinal, ordinal, hy, hm, hd, Nat.add_sub_cancel]
    omega
  · obtain ⟨hy, hm, hd⟩ := of?_eq_some_iff.mp (hnext.symm.trans h)
    have hyears := daysBeforeYear_succ hyear
    rw [hdecember] at hthis hend
    rw [ordinal, ordinal, hy, hm, hd, hdecember, hyears, Nat.sub_self, daysThrough]
    omega

/-- Every day but the last one has a day after it. -/
theorem exists_next? {d : Date} (h : d.Before last) : ∃ next, d.next? = some next := by
  obtain ⟨⟨hyear, hyears⟩, ⟨hmonth, hmonths⟩, hday, -⟩ := d.valid
  rcases d.next?_cases with ⟨hgoesOn, hnext⟩ | ⟨-, hends, hnext⟩ | ⟨hend, hdecember, hnext⟩
  · rw [hnext]
    exact exists_of? ⟨⟨hyear, hyears⟩, ⟨hmonth, hmonths⟩, Nat.le_succ_of_le hday, hgoesOn⟩
  · rw [hnext]
    exact exists_of? ⟨⟨hyear, hyears⟩, ⟨Nat.le_succ_of_le hmonth, hends⟩, Nat.le_refl 1,
      one_le_daysInMonth _ _⟩
  · have hdays : daysInMonth d.year 12 = 31 := rfl
    have hnotLast : d.year < 9999 := by
      rw [hdecember, hdays] at hend
      change d.year < 9999 ∨ d.year = 9999 ∧ (d.month < 12 ∨ d.month = 12 ∧ d.day < 31) at h
      omega
    rw [hnext]
    exact exists_of? ⟨⟨Nat.le_succ_of_le hyear, hnotLast⟩, by decide, Nat.le_refl 1,
      one_le_daysInMonth _ _⟩

/-- No day comes behind the last one. -/
theorem not_last_before (d : Date) : ¬ last.Before d := by
  obtain ⟨⟨-, hyears⟩, ⟨-, hmonths⟩, -, hdays⟩ := d.valid
  have hdecember : d.month = 12 → d.day ≤ 31 := fun h => by rwa [h] at hdays
  change ¬ (9999 < d.year ∨ 9999 = d.year ∧ (12 < d.month ∨ 12 = d.month ∧ 31 < d.day))
  omega

/-- Only the last day has no day after it. -/
theorem next?_eq_none_iff {d : Date} : d.next? = none ↔ d = last := by
  constructor
  · intro h
    rcases before_trichotomy d last with hbefore | rfl | hbehind
    · obtain ⟨next, hnext⟩ := exists_next? hbefore
      exact absurd (h.symm.trans hnext) (by simp)
    · rfl
    · exact absurd hbehind (not_last_before d)
  · rintro rfl
    decide

/-- The day after is the next one. -/
theorem next?_eq_some_iff {d next : Date} : d.next? = some next ↔ d.Precedes next := by
  constructor
  · intro h
    have hordinal := ordinal_next? h
    refine ⟨before_iff_ordinal_lt.mpr (by omega), ?_⟩
    rintro between ⟨hafter, hbefore⟩
    have := ordinal_lt_of_before hafter
    have := ordinal_lt_of_before hbefore
    omega
  · rintro ⟨hbefore, hbetween⟩
    -- There is a day behind `d`, so `d` is not the last and has a next one, which can only be that
    -- day.
    have hlast : d.Before last := by
      rcases before_trichotomy next last with h | rfl | h
      · exact hbefore.trans h
      · exact hbefore
      · exact absurd h (not_last_before next)
    obtain ⟨after, hafter⟩ := exists_next? hlast
    have hordinal := ordinal_next? hafter
    rcases before_trichotomy after next with h | rfl | h
    · exact absurd ⟨before_iff_ordinal_lt.mpr (by omega), h⟩ (hbetween after)
    · exact hafter
    · have := ordinal_lt_of_before hbefore
      have := ordinal_lt_of_before h
      omega

/-- What does not come before the next day comes after this one. -/
theorem Precedes.not_before_iff {day next d : Date} (h : day.Precedes next) :
    ¬ d.Before next ↔ day.Before d := by
  constructor
  · intro hd
    rcases before_trichotomy d day with hday | rfl | hday
    · exact absurd (hday.trans h.1) hd
    · exact absurd h.1 hd
    · exact hday
  · intro hday hnext
    exact h.2 d ⟨hday, hnext⟩

/-- From this day on and before the next one there is this day alone. -/
theorem Precedes.eq_iff {day next d : Date} (h : day.Precedes next) :
    ¬ d.Before day ∧ d.Before next ↔ d = day := by
  constructor
  · rintro ⟨hday, hnext⟩
    rcases before_trichotomy d day with hbefore | heq | hafter
    · exact absurd hbefore hday
    · exact heq
    · exact absurd hnext (h.not_before_iff.mpr hafter)
  · rintro rfl
    exact ⟨not_before_self d, h.1⟩

end Date

end Checklist
