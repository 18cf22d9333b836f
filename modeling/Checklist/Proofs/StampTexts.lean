import Checklist.Proofs.DateTexts
import Checklist.Proofs.ExactRounding
import Checklist.Proofs.Instants
import Checklist.Proofs.SortedViews

/-!
# Stamp texts — the forms of an instant

An instant can be written in three forms: fourteen digits, ISO 8601, and ISO 8601 with the offset of
UTC (`Instant.forms`). The first two are read as the same moment, which has no offset, and the third
as the moment with offset zero (`ofText?_compact`, `ofText?_iso`, `ofText?_isoUtc`). So all of them
name the number of seconds of the instant, which is small enough to be a binary number
(`secondsOf_forms`), and tasks with stamps in mixed forms are sorted by their instants
(`sortedBy_instant`).
-/

namespace Checklist

open Text

/-! ## Digits of a stamp -/

theorem Text.digitValue?_digitChar {k : Nat} (hk : k < 10) :
    digitValue? (Nat.digitChar k) = some k := by
  have hall : ∀ k < 10, digitValue? (Nat.digitChar k) = some k := by decide
  exact hall k hk

theorem Text.fixedDigits_two (n : Nat) :
    fixedDigits 10 2 n = [Nat.digitChar (n / 10 % 10), Nat.digitChar (n % 10)] := rfl

theorem Text.fixedDigits_four (n : Nat) :
    fixedDigits 10 4 n = [Nat.digitChar (n / 10 / 10 / 10 % 10), Nat.digitChar (n / 10 / 10 % 10),
      Nat.digitChar (n / 10 % 10), Nat.digitChar (n % 10)] := rfl

namespace Moment

/-- A number of two digits is read from them, whatever scripts are allowed. -/
theorem pair?_digits (wide : Nat → Bool) {n : Nat} (h : n < 100) :
    pair? wide (Nat.digitChar (n / 10 % 10)) (Nat.digitChar (n % 10)) = some n := by
  have htens : n / 10 % 10 < 10 := Nat.mod_lt _ (by decide)
  have hones : n % 10 < 10 := Nat.mod_lt _ (by decide)
  have hsum : 10 * (n / 10 % 10) + n % 10 = n := by omega
  simp only [pair?, asciiDigit?_digitChar htens, asciiDigit?_digitChar hones,
    digitValue?_digitChar hones, ite_self]
  exact congrArg some hsum

/-- A year of four digits is read from them. -/
theorem foldlM_year {n : Nat} (h : n < 10000) :
    [Nat.digitChar (n / 10 / 10 / 10 % 10), Nat.digitChar (n / 10 / 10 % 10),
      Nat.digitChar (n / 10 % 10), Nat.digitChar (n % 10)].foldlM
        (fun n c => (digitValue? c).map (10 * n + ·)) 0 = some n := by
  have hdigit (k : Nat) : digitValue? (Nat.digitChar (k % 10)) = some (k % 10) :=
    digitValue?_digitChar (Nat.mod_lt _ (by decide))
  simp only [List.foldlM_cons, List.foldlM_nil, hdigit, Option.map_some, Option.bind_eq_bind,
    Option.bind_some, Option.pure_def]
  congr 1
  omega

/-- A hyphen behind the year and no week behind that: the date takes ten characters. -/
theorem dateWidth_hyphenated {y₁ y₂ y₃ y₄ c : Char} {s : Text} (hweek : c ≠ 'W')
    (hlength : s.length ≠ 1) : dateWidth (y₁ :: y₂ :: y₃ :: y₄ :: '-' :: c :: s) = 10 := by
  simp [dateWidth, hweek, hlength]

end Moment

namespace Instant

/-- The instant as fourteen digits, `YYYYMMDDHHMMSS`. -/
def compact (i : Instant) : Text :=
  fixedDigits 10 4 i.date.year ++ fixedDigits 10 2 i.date.month ++ fixedDigits 10 2 i.date.day ++
    fixedDigits 10 2 i.hour ++ fixedDigits 10 2 i.minute ++ fixedDigits 10 2 i.second

/-- What the clock shows as `HH:MM:SS`. -/
def clockText (i : Instant) : Text :=
  fixedDigits 10 2 i.hour ++ ':' :: (fixedDigits 10 2 i.minute ++ ':' :: fixedDigits 10 2 i.second)

/-- The instant as `YYYY-MM-DDTHH:MM:SS`. -/
def iso (i : Instant) : Text := i.date.iso ++ 'T' :: i.clockText

/-- The instant as `YYYY-MM-DDTHH:MM:SS+00:00`. -/
def isoUtc (i : Instant) : Text := i.iso ++ "+00:00".toList

/-- The forms in which an instant can be stamped. -/
def forms (i : Instant) : List Text := [i.compact, i.iso, i.isoUtc]

variable {i : Instant}

theorem isValid_clock (i : Instant) : i.clock.isValid = true := by
  obtain ⟨hhour, hminute, hsecond⟩ := i.valid
  simp [TimeOfDay.isValid, clock, hhour, hminute, hsecond]

/-- Fourteen digits are read as the moment without an offset. -/
theorem ofText?_compact (i : Instant) :
    Moment.ofText? i.compact = some ⟨i.date, i.clock, none⟩ := by
  have hdigits : i.compact.all isDigit = true := by
    simp [compact, fixedDigits_two, fixedDigits_four, isDigit_digitChar]
  have hlength : i.compact.length = 14 := by simp [compact]
  obtain ⟨hhour, hminute, hsecond⟩ := i.valid
  obtain ⟨hyear, hmonth, hday⟩ := i.date.width_lt
  rw [Moment.ofText?, if_pos ⟨hlength, hdigits⟩, compact]
  simp only [fixedDigits_two, fixedDigits_four, List.cons_append, List.nil_append,
    Moment.ofCompact?, Moment.foldlM_year hyear, Moment.pair?_digits _ hmonth,
    Moment.pair?_digits _ hday, Moment.pair?_digits _ (Nat.lt_trans hhour (by decide)),
    Moment.pair?_digits _ (Nat.lt_trans hminute (by decide)),
    Moment.pair?_digits _ (Nat.lt_trans hsecond (by decide)), Option.bind_eq_bind,
    Option.bind_some, i.date.of?_self]
  exact if_pos i.isValid_clock

/-- A date and a letter are read as the date, and what follows as the time of day. -/
theorem ofText?_iso_append (d : Date) (rest : Text) :
    Moment.ofText? (d.iso ++ 'T' :: rest) = Moment.ofTime? d rest := by
  obtain ⟨hyear, hmonth, hday⟩ := d.mod_width
  have hread : Date.take? d.iso = some (d, []) := by
    have hdate := Date.take?_hyphenated d.year d.month d.day []
    rw [List.append_nil, hyear, hmonth, hday, d.of?_self] at hdate
    rw [d.iso_eq, hdate]
    rfl
  have hwidth : Moment.dateWidth (d.iso ++ 'T' :: rest) = 10 := by
    have hweek : ∀ k < 10, Nat.digitChar k ≠ 'W' := by decide
    rw [d.iso_eq, fixedDigits_four, fixedDigits_two]
    exact Moment.dateWidth_hyphenated (hweek _ (Nat.mod_lt _ (by decide))) (by simp)
  -- The hyphens keep the text from being taken for the compact form, whatever its length.
  have hhyphen : isDigit '-' = false := by decide
  have hiso : (d.iso ++ 'T' :: rest).all isDigit = false := by
    simp [d.iso_eq, hhyphen]
  rw [Moment.ofText?, if_neg (by simp [hiso]), Moment.ofIso?]
  simp only [hwidth, List.take_left' d.length_iso, List.drop_left' d.length_iso, hread]
  rfl

/-- A field before a colon is read, and the fields after it are parted by colons too. -/
theorem takeFields?_colon {missing n : Nat} {colons : Bool} {fields : List Nat}
    (hcolons : fields = [] ∨ colons = true) (hn : n < 10 ^ 2) {c : Char} (rest : Text) :
    takeFields? (missing + 1) colons fields (fixedDigits 10 2 n ++ ':' :: c :: rest) =
      takeFields? missing true (fields ++ [n]) (c :: rest) := by
  rw [takeFields?, takeDigits?_fixedDigits, Nat.mod_eq_of_lt hn]
  rcases hcolons with rfl | rfl <;> simp

/-- A field that ends the text ends the time of day. -/
theorem takeFields?_last {missing n : Nat} {colons : Bool} {fields : List Nat} (hn : n < 10 ^ 2) :
    takeFields? (missing + 1) colons fields (fixedDigits 10 2 n) =
      some (.ofFields (fields ++ [n]) 0, true) := by
  have hread := takeDigits?_fixedDigits 2 n []
  rw [List.append_nil, Nat.mod_eq_of_lt hn] at hread
  rw [takeFields?, hread]

/-- The clock is read from its text. -/
theorem read?_clockText (i : Instant) : TimeOfDay.read? i.clockText = some (i.clock, true) := by
  obtain ⟨hhour, hminute, hsecond⟩ := i.valid
  -- Behind a colon there must be a character, so the digits of the next field are shown first.
  rw [TimeOfDay.read?, clockText, fixedDigits_two i.minute, List.cons_append,
    takeFields?_colon (.inl rfl) (Nat.lt_trans hhour (by decide)), ← List.cons_append,
    ← fixedDigits_two, fixedDigits_two i.second,
    takeFields?_colon (.inr rfl) (Nat.lt_trans hminute (by decide)), ← fixedDigits_two,
    takeFields?_last (Nat.lt_trans hsecond (by decide))]
  rfl

/-- The characters of a clock's text. -/
theorem mem_clockText {c : Char} (h : c ∈ i.clockText) :
    c = ':' ∨ ∃ k < 10, c = Nat.digitChar k := by
  simp only [clockText, List.mem_append, List.mem_cons] at h
  rcases h with h | h | h | h | h
  · exact .inr (exists_digit_of_mem_fixedDigits h)
  · exact .inl h
  · exact .inr (exists_digit_of_mem_fixedDigits h)
  · exact .inl h
  · exact .inr (exists_digit_of_mem_fixedDigits h)

/-- None of them could begin an offset. -/
theorem not_zone_of_mem_clockText {c : Char} (h : c ∈ i.clockText) :
    (!(decide (c = '+') || decide (c = '-') || decide (c = 'Z'))) = true := by
  have hdigit : ∀ k < 10, (!(decide (Nat.digitChar k = '+') || decide (Nat.digitChar k = '-') ||
      decide (Nat.digitChar k = 'Z'))) = true := by decide
  rcases mem_clockText h with rfl | ⟨k, hk, rfl⟩
  · decide
  · exact hdigit k hk

/-- What stands before an offset, or before the end, is the clock's text. -/
theorem cut_clockText (i : Instant) (zone : Text) (hzone : zone = [] ∨ zone.head? = some '+') :
    (i.clockText ++ zone).takeWhile
        (fun c => !(decide (c = '+') || decide (c = '-') || decide (c = 'Z'))) = i.clockText ∧
      (i.clockText ++ zone).dropWhile
        (fun c => !(decide (c = '+') || decide (c = '-') || decide (c = 'Z'))) = zone := by
  rw [List.takeWhile_append_of_pos fun _ => not_zone_of_mem_clockText,
    List.dropWhile_append_of_pos fun _ => not_zone_of_mem_clockText]
  cases zone with
  | nil => exact ⟨List.append_nil _, rfl⟩
  | cons c zone =>
      obtain rfl : c = '+' := by simpa using hzone
      exact ⟨List.append_nil _, rfl⟩

/-- Without an offset the clock is read to the end. -/
theorem ofTime?_clockText (date : Date) (i : Instant) :
    Moment.ofTime? date i.clockText = some ⟨date, i.clock, none⟩ := by
  obtain ⟨htake, hdrop⟩ := i.cut_clockText [] (.inl rfl)
  rw [← List.append_nil i.clockText, Moment.ofTime?]
  simp only [htake, hdrop, read?_clockText, Option.bind_eq_bind, Option.bind_some, isValid_clock]
  rfl

/-- Behind the clock an offset is read. -/
theorem ofTime?_clockText_append (date : Date) (i : Instant) (offset : Text) :
    Moment.ofTime? date (i.clockText ++ '+' :: offset) =
      (readOffset? 1 offset).map fun o => ⟨date, i.clock, some o⟩ := by
  obtain ⟨htake, hdrop⟩ := i.cut_clockText ('+' :: offset) (.inr rfl)
  rw [Moment.ofTime?]
  simp only [htake, hdrop, read?_clockText, Option.bind_eq_bind, Option.bind_some, isValid_clock]
  rfl

theorem ofText?_iso (i : Instant) : Moment.ofText? i.iso = some ⟨i.date, i.clock, none⟩ := by
  rw [iso, ofText?_iso_append, ofTime?_clockText]

theorem ofText?_isoUtc (i : Instant) :
    Moment.ofText? i.isoUtc = some ⟨i.date, i.clock, some 0⟩ := by
  have hoffset : readOffset? 1 "00:00".toList = some 0 := by decide
  have hzone : "+00:00".toList = '+' :: "00:00".toList := by decide
  rw [isoUtc, iso, List.append_assoc, List.cons_append, ofText?_iso_append, hzone,
    ofTime?_clockText_append, hoffset]
  rfl

/-! ## Seconds -/

/-- The numbers of seconds are binary numbers. -/
theorem nearestBinary_sinceEpoch (i : Instant) :
    Rounding.nearestBinary (i.sinceEpoch : Rat) = i.sinceEpoch := by
  obtain ⟨hfirst, hlast⟩ := i.sinceEpoch_bounds
  rw [sinceEpoch_first] at hfirst
  rw [sinceEpoch_last] at hlast
  exact Rounding.nearestBinary_intCast (by omega)

/-- A clock without an offset counts as that of UTC, but it cannot be placed on the first day. -/
theorem seconds?_local (h : 2 ≤ i.date.year) :
    Moment.seconds? ⟨i.date, i.clock, none⟩ = some (i.sinceEpoch : Rat) := by
  have hfirst : i.date ≠ Date.first := by
    intro hfirst
    rw [hfirst] at h
    exact absurd h (by decide)
  have hmicro : Rounding.nearestBinary (((i.clock.micro : Nat) : Rat) / 1000000) = 0 := by
    have hzero : ((i.clock.micro : Nat) : Rat) / 1000000 = 0 := Rat.zero_mul _
    rw [hzero]
    rfl
  simp only [Moment.seconds?, if_neg hfirst, hmicro, wallSeconds_eq, Rat.add_zero,
    nearestBinary_sinceEpoch]

theorem seconds?_utc (i : Instant) :
    Moment.seconds? ⟨i.date, i.clock, some 0⟩ = some (i.sinceEpoch : Rat) := by
  -- The seconds are counted in microseconds and divided again before they are rounded.
  have hmicros : (((i.sinceEpoch * 1000000 + (i.clock.micro : Nat) - 0 : Int)) : Rat) / 1000000 =
      i.sinceEpoch := by
    have hwhole : i.sinceEpoch * 1000000 + (i.clock.micro : Nat) - 0 = i.sinceEpoch * 1000000 := by
      simp [clock]
    have hcast : ((1000000 : Int) : Rat) = 1000000 := rfl
    rw [hwhole, Rat.intCast_mul, hcast, Rat.div_def, Rat.mul_assoc,
      Rat.mul_inv_cancel _ (by decide +kernel), Rat.mul_one]
  simp only [Moment.seconds?, wallSeconds_eq, hmicros, nearestBinary_sinceEpoch]

/-- The form with the offset of UTC names the seconds of every instant. -/
theorem secondsOf_isoUtc (i : Instant) : secondsOf (some i.isoUtc) = i.sinceEpoch := by
  simp [secondsOf, ofText?_isoUtc, seconds?_utc]

/-- After the first year, all forms name the seconds of the instant. -/
theorem secondsOf_forms (h : 2 ≤ i.date.year) {text : Text} (htext : text ∈ i.forms) :
    secondsOf (some text) = i.sinceEpoch := by
  simp only [forms, List.mem_cons, List.not_mem_nil, or_false] at htext
  rcases htext with rfl | rfl | rfl
  · simp [secondsOf, ofText?_compact, seconds?_local h]
  · simp [secondsOf, ofText?_iso, seconds?_local h]
  · exact i.secondsOf_isoUtc

end Instant

/-! ## Sorting by stamps -/

/-- The stamp of the task that the order goes by. -/
def SortField.stamp? (field : SortField) (t : Task) : Option Text :=
  match field with
  | .created => t.created
  | .updated => t.updated
  | _ => none

/-- The key of a stamped task is the seconds that its stamp names. -/
theorem key_of_stamp? {field : SortField} {t : Task} {text : Text}
    (h : field.stamp? t = some text) : field.key t = .number (secondsOf (some text)) := by
  cases field with
  | created => rw [← h]; rfl
  | updated => rw [← h]; rfl
  | _ => exact absurd h.symm (Option.some_ne_none _)

/-- Tasks whose stamps are forms of instants are sorted by the instants. -/
theorem sortedBy_instant {field : SortField} {tasks : List Task} {stamped : Task → Instant}
    (h : ∀ t ∈ tasks, 2 ≤ (stamped t).date.year ∧
      ∃ text ∈ (stamped t).forms, field.stamp? t = some text) (direction : SortDirection) :
    SortedBy stamped Instant.Before direction tasks (sortTasks tasks ⟨field, direction⟩) := by
  refine sortedBy_of_count Instant.sinceEpoch (fun _ _ => Instant.before_iff_sinceEpoch_lt) ?_
    direction
  intro t ht
  obtain ⟨hyear, text, hform, hstamp⟩ := h t ht
  rw [key_of_stamp? hstamp, Instant.secondsOf_forms hyear hform]

/-- **The forms of a stamp agree.** After the first year, all three forms of an instant name the
same number, that of its seconds since the start of 1970: the start itself has 0, and every instant
one more than the instant before it. So tasks that are stamped in any of the forms are sorted by the
instants of their stamps, and those of the same instant stand as they came. -/
theorem forms_agree_and_sort :
    (∀ i : Instant, 2 ≤ i.date.year → ∀ text ∈ i.forms,
      secondsOf (some text) = (i.sinceEpoch : Rat)) ∧
    (Instant.epoch.sinceEpoch = 0 ∧
      ∀ a b : Instant, a.Precedes b → b.sinceEpoch = a.sinceEpoch + 1) ∧
    ∀ (field : SortField) (tasks : List Task) (stamped : Task → Instant)
      (direction : SortDirection),
      (∀ t ∈ tasks, 2 ≤ (stamped t).date.year ∧
        ∃ text ∈ (stamped t).forms, field.stamp? t = some text) →
      SortedBy stamped Instant.Before direction tasks (sortTasks tasks ⟨field, direction⟩) :=
  ⟨fun _ hyear _ htext => Instant.secondsOf_forms hyear htext,
    ⟨Instant.sinceEpoch_epoch, fun _ _ => Instant.sinceEpoch_of_precedes⟩,
    fun _ _ _ direction h => sortedBy_instant h direction⟩

/-- A second shortly before 1970. -/
def beforeEpoch : Instant := ⟨⟨1969, 12, 31, by decide⟩, 23, 59, 58, by decide⟩

/-- A second of a leap day. -/
def onLeapDay : Instant := ⟨⟨2024, 2, 29, by decide⟩, 6, 5, 4, by decide⟩

/-- Three tasks, stamped in one form each, of which the first and the last have the same instant. -/
def stampedTasks : List Task :=
  [{ id := ['1'], created := some "20240229060504".toList },
    { id := ['2'], created := some "1969-12-31T23:59:58".toList },
    { id := ['3'], created := some "2024-02-29T06:05:04+00:00".toList }]

/-- The three stamps name two numbers, and the tasks are sorted by their instants. -/
theorem forms_agree_and_sort_stampedTasks :
    secondsOf (some "20240229060504".toList) = 1709186704 ∧
    secondsOf (some "1969-12-31T23:59:58".toList) = -2 ∧
    secondsOf (some "2024-02-29T06:05:04+00:00".toList) = 1709186704 ∧
    SortedBy (fun t => if t.id = ['2'] then beforeEpoch else onLeapDay) Instant.Before .ascending
      stampedTasks (sortTasks stampedTasks ⟨.created, .ascending⟩) := by
  obtain ⟨hforms, -, hsort⟩ := forms_agree_and_sort
  have hleap : (onLeapDay.sinceEpoch : Rat) = 1709186704 := by decide +kernel
  have hbefore : (beforeEpoch.sinceEpoch : Rat) = -2 := by decide +kernel
  refine ⟨hleap ▸ hforms onLeapDay (by decide) _ (by decide),
    hbefore ▸ hforms beforeEpoch (by decide) _ (by decide),
    hleap ▸ hforms onLeapDay (by decide) _ (by decide), hsort _ _ _ _ ?_⟩
  decide

end Checklist
