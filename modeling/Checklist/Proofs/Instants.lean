import Checklist.Calendar.Moment
import Checklist.Proofs.DayNumbers

/-!
# Instants — the whole seconds of the calendar

An instant is a day and what the clock shows on it (`Instant`). Instants follow one another as their
days do, and within a day as the clock runs (`Instant.Before`). Counted from the start of 1970, each
instant has a number of seconds: the start of 1970 has none (`sinceEpoch_epoch`), and every instant
one more than the one before it (`sinceEpoch_of_precedes`), so that the numbers have the order of
the instants (`before_iff_sinceEpoch_lt`). Every number between those of the first and the last
second of the calendar is taken (`exists_sinceEpoch_eq`).
-/

namespace Checklist

/-- A second of the calendar: a day and the hands of the clock. -/
structure Instant where
  date : Date
  hour : Nat
  minute : Nat
  second : Nat
  /-- The hands can stand like this. -/
  valid : hour < 24 ∧ minute < 60 ∧ second < 60
  deriving DecidableEq

namespace Instant

/-- The first instant comes earlier than the second. -/
def Before (a b : Instant) : Prop :=
  a.date.Before b.date ∨
    a.date = b.date ∧ (a.hour < b.hour ∨
      a.hour = b.hour ∧ (a.minute < b.minute ∨ a.minute = b.minute ∧ a.second < b.second))

/-- The second instant is the next one: none lies between the two. -/
def Precedes (a b : Instant) : Prop := a.Before b ∧ ∀ i, ¬ (a.Before i ∧ i.Before b)

/-- The start of 1970. -/
def epoch : Instant := ⟨⟨1970, 1, 1, by decide⟩, 0, 0, 0, by decide⟩

/-- The first second of the calendar. -/
def first : Instant := ⟨.first, 0, 0, 0, by decide⟩

/-- The last second of the calendar. -/
def last : Instant := ⟨.last, 23, 59, 59, by decide⟩

/-- What the clock shows. -/
def clock (i : Instant) : TimeOfDay := ⟨i.hour, i.minute, i.second, 0⟩

/-- The number of seconds from the start of 1970 to the instant, negative before it. -/
def sinceEpoch (i : Instant) : Int :=
  ((i.date.ordinal : Int) - epoch.date.ordinal) * 86400 + (3600 * i.hour + 60 * i.minute + i.second)

/-- The count agrees with what the clock of a moment shows. -/
theorem wallSeconds_eq (i : Instant) (offset : Option Int) :
    (⟨i.date, i.clock, offset⟩ : Moment).wallSeconds = i.sinceEpoch := by
  have hday : (Moment.epochDay : Int) = epoch.date.ordinal := by decide
  simp [Moment.wallSeconds, sinceEpoch, hday, TimeOfDay.seconds, clock]

@[simp] theorem sinceEpoch_epoch : epoch.sinceEpoch = 0 := by decide

theorem sinceEpoch_first : first.sinceEpoch = -62135596800 := by decide

theorem sinceEpoch_last : last.sinceEpoch = 253402300799 := by decide

/-- The earlier instant has the smaller number. -/
theorem before_iff_sinceEpoch_lt {a b : Instant} :
    a.Before b ↔ a.sinceEpoch < b.sinceEpoch := by
  have hdate : a.date = b.date ↔ a.date.ordinal = b.date.ordinal :=
    ⟨fun h => h ▸ rfl, Date.ordinal_injective⟩
  obtain ⟨ha, ha', ha''⟩ := a.valid
  obtain ⟨hb, hb', hb''⟩ := b.valid
  -- The clock stays below the 86400 seconds of a day, so that the days decide first.
  rw [Before, Date.before_iff_ordinal_lt, hdate, sinceEpoch, sinceEpoch]
  omega

/-- The numbers lie between those of the first and the last second of the calendar. -/
theorem sinceEpoch_bounds (i : Instant) :
    first.sinceEpoch ≤ i.sinceEpoch ∧ i.sinceEpoch ≤ last.sinceEpoch := by
  have hpos := i.date.ordinal_pos
  have hle := i.date.ordinal_le_last
  obtain ⟨hhour, hminute, hsecond⟩ := i.valid
  have hlast : Date.last.ordinal = 3652059 := by decide
  have hepoch : epoch.date.ordinal = 719163 := by decide
  rw [sinceEpoch_first, sinceEpoch_last, sinceEpoch]
  omega

/-- The instant of a day and a number of seconds after midnight. -/
def ofClock (date : Date) (seconds : Nat) (h : seconds < 86400) : Instant where
  date
  hour := seconds / 3600
  minute := seconds / 60 % 60
  second := seconds % 60
  valid := by omega

theorem sinceEpoch_ofClock (date : Date) {seconds : Nat} (h : seconds < 86400) :
    (ofClock date seconds h).sinceEpoch =
      ((date.ordinal : Int) - epoch.date.ordinal) * 86400 + seconds := by
  simp only [sinceEpoch, ofClock]
  omega

/-- Every number of seconds in the calendar is that of an instant: its day is found by division. -/
theorem exists_sinceEpoch_eq {s : Int} (hfirst : first.sinceEpoch ≤ s)
    (hlast : s ≤ last.sinceEpoch) : ∃ i : Instant, i.sinceEpoch = s := by
  rw [sinceEpoch_first] at hfirst
  rw [sinceEpoch_last] at hlast
  have hbound : Date.last.ordinal = 3652059 := by decide
  have hepoch : epoch.date.ordinal = 719163 := by decide
  obtain ⟨date, hdate⟩ := Date.exists_ordinal_eq (n := (s / 86400 + 719163).toNat)
    (by omega) (by omega)
  have hclock : (s % 86400).toNat < 86400 := by omega
  refine ⟨ofClock date (s % 86400).toNat hclock, ?_⟩
  rw [sinceEpoch_ofClock, hdate, hepoch]
  omega

/-- The next instant has the next number. -/
theorem sinceEpoch_of_precedes {a b : Instant} (h : a.Precedes b) :
    b.sinceEpoch = a.sinceEpoch + 1 := by
  obtain ⟨hbefore, hbetween⟩ := h
  have hlt := before_iff_sinceEpoch_lt.mp hbefore
  have hadjacent : ¬ a.sinceEpoch + 1 < b.sinceEpoch := by
    intro hgap
    -- The instant with the next number would lie between the two.
    obtain ⟨i, hi⟩ := exists_sinceEpoch_eq (s := a.sinceEpoch + 1)
      (by have := a.sinceEpoch_bounds; omega) (by have := b.sinceEpoch_bounds; omega)
    exact hbetween i ⟨before_iff_sinceEpoch_lt.mpr (by omega),
      before_iff_sinceEpoch_lt.mpr (by omega)⟩
  omega

end Instant

end Checklist
