import Checklist.Proofs.CalendarOrder
import Checklist.Proofs.DateTexts
import Checklist.Proofs.Directives
import Checklist.Proofs.Trimming
import Checklist.Query.Window

/-!
# Date windows — what a date directive lets through

The value of a date directive is a day or one of two words, between blanks. What it means is decided
by the text that is left when the blanks and the case are taken away, and a day is left as it is
written (`Writes.lower_trim`), so that it is read back whatever sign stands before it
(`day?_of_blank`). The windows before, on and behind a day then cut the calendar in three: a text
that is a date lies in exactly one of them, and any other text in none (`ofText?_splits_calendar`).
The step to the day after is where the windows meet; `Date.next?_eq_some_iff` says that nothing lies
between.
-/

namespace Checklist

open Text

namespace DateWindow

/-- The value is the sign and the day, with blanks at both ends and between the two. -/
def Writes (sign : Text) (day : Date) (value : Text) : Prop :=
  ∃ before gap behind, (∀ c ∈ before, isBlank c = true) ∧ (∀ c ∈ gap, isBlank c = true) ∧
    (∀ c ∈ behind, isBlank c = true) ∧ value = before ++ (sign ++ (gap ++ day.iso)) ++ behind

/-- The value is the word in any letter case, with blanks at both ends. -/
def Says (word value : Text) : Prop :=
  ∃ before spelling behind, (∀ c ∈ before, isBlank c = true) ∧ (∀ c ∈ behind, isBlank c = true) ∧
    spelling.map Char.toLower = word ∧ value = before ++ spelling ++ behind

/-! ## What is left of a value -/

/-- Blanks at the ends of a value make no difference. -/
theorem trim_between {before behind s : Text} (hbefore : ∀ c ∈ before, isBlank c = true)
    (hbehind : ∀ c ∈ behind, isBlank c = true) : trim (before ++ s ++ behind) = trim s := by
  rw [trim_append_of_blank hbehind, trim_of_blank_append hbefore]

theorem lowerChar_of_mem_iso {day : Date} : ∀ c ∈ day.iso, lowerChar c = [c] :=
  Date.forall_mem_iso (by decide +kernel) (by decide +kernel) day

/-- A day that is written behind a sign and blanks ends with no blank. -/
theorem isBlank_of_getLast_append_iso {day : Date} {c : Char} (s : Text)
    (h : (s ++ day.iso).getLast? = some c) : isBlank c = false := by
  cases hiso : day.iso.getLast? with
  | none => exact absurd day.length_iso (by simp [List.getLast?_eq_none_iff.mp hiso])
  | some d =>
      rw [List.getLast?_append, hiso] at h
      obtain rfl : d = c := Option.some.inj h
      exact Date.isBlank_of_mem_iso d (List.mem_of_getLast? hiso)

/-- Of a day behind a sign, the sign, the blanks behind it and the day are left. -/
theorem Writes.lower_trim {sign : Char} {day : Date} {value : Text} (h : Writes [sign] day value)
    (hblank : isBlank sign = false) (hlower : lowerChar sign = [sign]) :
    ∃ gap, (∀ c ∈ gap, isBlank c = true) ∧ lower (trim value) = sign :: (gap ++ day.iso) := by
  obtain ⟨before, gap, behind, hbefore, hgap, hbehind, rfl⟩ := h
  refine ⟨gap, hgap, ?_⟩
  have htrim : trim (sign :: (gap ++ day.iso)) = sign :: (gap ++ day.iso) :=
    trim_eq_self (fun c hc => Option.some.inj hc ▸ hblank)
      fun c hc => isBlank_of_getLast_append_iso (sign :: gap) hc
  rw [List.singleton_append, trim_between hbefore hbehind, htrim]
  refine lowerFrom_eq_self ?_ false
  intro c hc
  rcases List.mem_cons.mp hc with rfl | hc
  · exact hlower
  · rcases List.mem_append.mp hc with hc | hc
    · exact (lowerChar_of_isBlank (hgap c hc)).1
    · exact lowerChar_of_mem_iso c hc

/-- Of a day without a sign the day is left. -/
theorem Writes.lower_trim_nil {day : Date} {value : Text} (h : Writes [] day value) :
    lower (trim value) = day.iso := by
  obtain ⟨before, gap, behind, hbefore, hgap, hbehind, rfl⟩ := h
  rw [List.nil_append, trim_between hbefore hbehind, trim_of_blank_append hgap,
    trim_of_not_blank Date.isBlank_of_mem_iso]
  exact lowerFrom_eq_self lowerChar_of_mem_iso false

/-- Of a word its lowercase form is left. -/
theorem Says.lower_trim {word value : Text} (h : Says word value)
    (hplain : ∀ c ∈ word, isPlain c = true ∧ isBlank c = false) : lower (trim value) = word := by
  obtain ⟨before, spelling, behind, hbefore, hbehind, hspelling, rfl⟩ := h
  have hblank : ∀ c ∈ spelling, isBlank c = false := by
    intro c hc
    by_contra hcontra
    have hlower := (lowerChar_of_isBlank (by simpa using hcontra)).2
    have hmem : c.toLower ∈ word := hspelling ▸ List.mem_map_of_mem hc
    rw [hlower] at hmem
    exact hcontra (hplain c hmem).2
  rw [trim_between hbefore hbehind, trim_of_not_blank hblank]
  exact (lowerFrom_eq_iff (fun c hc => (hplain c hc).1) false spelling).mpr hspelling

/-! ## The windows of a day -/

theorem hasDateShape_iso (day : Date) : hasDateShape day.iso = true := by
  rw [day.iso_eq]
  simp [fixedDigits, hasDateShape, isDigit_digitChar]

/-- A day is read back from its text, behind blanks too. -/
theorem day?_of_blank {gap : Text} (hgap : ∀ c ∈ gap, isBlank c = true) (day : Date) :
    day? (gap ++ day.iso) = some day := by
  rw [day?, trim_of_blank_append hgap, trim_of_not_blank Date.isBlank_of_mem_iso,
    if_pos (hasDateShape_iso day), Date.ofIso?_iso]

/-- A date begins with a digit. -/
theorem exists_iso_eq_cons (day : Date) : ∃ c s, day.iso = c :: s ∧ isDigit c = true := by
  rw [day.iso_eq, fixedDigits_succ_eq_cons]
  exact ⟨_, _, rfl, isDigit_digitChar _⟩

variable {day today : Date} {value : Text}

/-- The window of a day and the sign before it. -/
def ofSigned? : Text → Option DateWindow
  | '<' :: date => (day? date).map fun day => ⟨none, some day⟩
  | '>' :: date => ((day? date).bind Date.next?).map fun next => ⟨some next, none⟩
  | date => (day? date).bind only?

/-- What does not begin like one of the two words is taken for a day. -/
theorem ofText?_of_token {token : Text} (htoken : lower (trim value) = token)
    (hword : token.head? ≠ some 't') : ofText? value today = .ok (ofSigned? token) := by
  have htoday : token ≠ "today".toList := by
    rintro rfl
    exact hword (by decide)
  have htomorrow : token ≠ "tomorrow".toList := by
    rintro rfl
    exact hword (by decide)
  simp only [ofText?, htoken, if_neg htoday, if_neg htomorrow]
  split
  · rfl
  · rfl
  · next hbefore hafter => rw [ofSigned?.eq_3 _ hbefore hafter]

/-- The days before a day. -/
theorem ofText?_before (h : Writes ['<'] day value) :
    ofText? value today = .ok (some ⟨none, some day⟩) := by
  obtain ⟨gap, hgap, htoken⟩ := h.lower_trim (by decide) (by decide +kernel)
  rw [ofText?_of_token htoken (by simp), ofSigned?, day?_of_blank hgap, Option.map_some]

/-- The days after a day, from the next one on. -/
theorem ofText?_after (h : Writes ['>'] day value) :
    ofText? value today = .ok (day.next?.map fun next => ⟨some next, none⟩) := by
  obtain ⟨gap, hgap, htoken⟩ := h.lower_trim (by decide) (by decide +kernel)
  rw [ofText?_of_token htoken (by simp), ofSigned?, day?_of_blank hgap, Option.bind_some]

/-- The day alone. -/
theorem ofText?_on (h : Writes [] day value) : ofText? value today = .ok (only? day) := by
  have hnone : ∀ c ∈ ([] : Text), isBlank c = true := by simp
  have hday := day?_of_blank hnone day
  rw [List.nil_append] at hday
  obtain ⟨c, s, hiso, hdigit⟩ := exists_iso_eq_cons day
  have hne : ∀ sign, isDigit sign = false → c ≠ sign := by
    rintro sign hsign rfl
    exact absurd hdigit (by simp [hsign])
  have htoken := h.lower_trim_nil
  rw [hiso] at hday htoken
  rw [ofText?_of_token htoken (by simpa using hne 't' (by decide)),
    ofSigned?.eq_3 _ (by simpa using hne '<' (by decide)) (by simpa using hne '>' (by decide)),
    hday, Option.bind_some]

theorem ofText?_today (h : Says "today".toList value) :
    ofText? value today = onlyOrOverflow (some today) := by
  simp only [ofText?, h.lower_trim (forall_mem_of_all (by decide)), if_true]

theorem ofText?_tomorrow (h : Says "tomorrow".toList value) :
    ofText? value today = onlyOrOverflow today.next? := by
  have hne : "tomorrow".toList ≠ "today".toList := by decide
  simp only [ofText?, h.lower_trim (forall_mem_of_all (by decide)), if_neg hne, if_true]

/-! ## The days of a window -/

theorem contains_eq_true_iff {w : DateWindow} {written : Option Text} :
    w.contains written = true ↔
      ∃ d, written.bind Date.ofIso? = some d ∧ w.containsDay d = true := by
  rw [contains, Option.any_eq_true]

/-- A window holds the days that do not come before its first day and come before its end. -/
theorem containsDay_eq_true_iff {w : DateWindow} {d : Date} :
    w.containsDay d = true ↔
      (∀ after ∈ w.after, ¬ d.Before after) ∧ ∀ before ∈ w.before, d.Before before := by
  rw [containsDay, Bool.and_eq_true, Option.all_eq_true, Option.all_eq_true]
  simp only [decide_eq_true_eq, Date.le_iff_not_before, Date.lt_iff_before, Option.mem_def]

theorem contains_iff_of_date {w : DateWindow} {written : Option Text} {d : Date}
    (h : written.bind Date.ofIso? = some d) :
    w.contains written = true ↔ w.containsDay d = true := by
  rw [contains, h, Option.any_some]

/-- **A day cuts the calendar in three.** Let `day` be a day before the last one. The values `<day`,
`day` and `>day` stand for three windows, whatever today is, and a text that is a date lies in
exactly one of them: in the first if its day comes before `day`, in the second if it is `day`, in
the third if it comes after `day`. What is no date lies in none. The word for today has the window
of `day` when `day` is today, and the word for tomorrow has it on the day before. -/
theorem ofText?_splits_calendar {day : Date} (hday : day.Before .last) :
    ∃ earlier same later : DateWindow,
      (∀ today value,
        (Writes ['<'] day value → ofText? value today = .ok (some earlier)) ∧
        (Writes [] day value → ofText? value today = .ok (some same)) ∧
        (Writes ['>'] day value → ofText? value today = .ok (some later))) ∧
      (∀ value, Says "today".toList value → ofText? value day = .ok (some same)) ∧
      (∀ today value, today.Precedes day → Says "tomorrow".toList value →
        ofText? value today = .ok (some same)) ∧
      (∀ written d, written.bind Date.ofIso? = some d →
        [earlier, same, later].countP (·.contains written) = 1 ∧
        (earlier.contains written = true ↔ d.Before day) ∧
        (same.contains written = true ↔ d = day) ∧
        (later.contains written = true ↔ day.Before d)) ∧
      ∀ written, written.bind Date.ofIso? = none →
        ∀ w ∈ [earlier, same, later], w.contains written = false := by
  obtain ⟨next, hnext⟩ := Date.exists_next? hday
  have hprecedes := Date.next?_eq_some_iff.mp hnext
  have honly : only? day = some ⟨some day, some next⟩ := by rw [only?, hnext, Option.map_some]
  refine ⟨⟨none, some day⟩, ⟨some day, some next⟩, ⟨some next, none⟩, ?_, ?_, ?_, ?_, ?_⟩
  · intro today value
    refine ⟨ofText?_before, fun h => ?_, fun h => ?_⟩
    · rw [ofText?_on h, honly]
    · rw [ofText?_after h, hnext, Option.map_some]
  · intro value h
    rw [ofText?_today h, onlyOrOverflow, Option.bind_some, honly]
  · intro today value htoday h
    rw [ofText?_tomorrow h, Date.next?_eq_some_iff.mpr htoday, onlyOrOverflow, Option.bind_some,
      honly]
  -- For each of the windows, what it is to lie in it; the order of days does the rest.
  · intro written d hwritten
    have hearlier : contains ⟨none, some day⟩ written = true ↔ d.Before day := by
      rw [contains_iff_of_date hwritten, containsDay_eq_true_iff]
      simp
    -- The third window begins with the next day, before which there is no day but these.
    have hlater : contains ⟨some next, none⟩ written = true ↔ day.Before d := by
      rw [contains_iff_of_date hwritten, containsDay_eq_true_iff, ← hprecedes.not_before_iff]
      simp
    have hsame : contains ⟨some day, some next⟩ written = true ↔ d = day := by
      rw [contains_iff_of_date hwritten, containsDay_eq_true_iff, ← hprecedes.eq_iff]
      simp
    refine ⟨?_, hearlier, hsame, hlater⟩
    simp only [List.countP_cons, List.countP_nil, hearlier, hsame, hlater]
    rcases Date.before_trichotomy d day with h | rfl | h
    · simp [h, h.ne, h.asymm]
    · simp [Date.not_before_self]
    · simp [h, h.ne.symm, h.asymm]
  · intro written hwritten w _
    rw [contains, hwritten, Option.any_none]

/-- The day before the leap day, on the day before it: a week date that names the day lies in its
window, and the leap day is the first one behind it. -/
theorem ofText?_splits_calendar_leapYear :
    (⟨2024, 2, 28, by decide⟩ : Date).Before .last ∧
      (⟨2024, 2, 27, by decide⟩ : Date).Precedes ⟨2024, 2, 28, by decide⟩ ∧
      ∃ earlier same later : DateWindow,
        ofText? "<\u2003 2024-02-28 ".toList .first = .ok (some earlier) ∧
        ofText? " ToMorrow".toList ⟨2024, 2, 27, by decide⟩ = .ok (some same) ∧
        ofText? ">2024-02-28".toList .first = .ok (some later) ∧
        same.contains (some "2024-W09-3".toList) = true ∧
        later.contains (some "2024-02-29".toList) = true ∧
        earlier.contains (some "2024-02-30".toList) = false := by
  have hday : (⟨2024, 2, 28, by decide⟩ : Date).Before .last := by decide
  have hprecedes : (⟨2024, 2, 27, by decide⟩ : Date).Precedes ⟨2024, 2, 28, by decide⟩ :=
    Date.next?_eq_some_iff.mp rfl
  obtain ⟨earlier, same, later, hvalues, -, htomorrow, hdates, hothers⟩ :=
    ofText?_splits_calendar hday
  refine ⟨hday, hprecedes, earlier, same, later, ?_, ?_, ?_, ?_, ?_, ?_⟩
  · exact (hvalues _ _).1 ⟨[], "\u2003 ".toList, [' '], by simp, forall_mem_of_all (by decide),
      forall_mem_of_all (by decide), by decide⟩
  · exact htomorrow _ _ hprecedes ⟨[' '], "ToMorrow".toList, [], forall_mem_of_all (by decide),
      by simp, by decide, by decide⟩
  · exact (hvalues _ _).2.2 ⟨[], [], [], by simp, by simp, by simp, by decide⟩
  · exact (hdates _ ⟨2024, 2, 28, by decide⟩ (by decide +kernel)).2.2.1.mpr rfl
  · exact (hdates _ ⟨2024, 2, 29, by decide⟩ (by decide +kernel)).2.2.2.mpr (by decide)
  · exact hothers _ (by decide +kernel) _ (by simp)

end DateWindow

end Checklist
