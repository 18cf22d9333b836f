import Checklist.Task.Token

/-!
# Characters — the classes that reading a task tells apart

Reading a task looks at five classes of characters: blanks, word characters, digits, the signs that
announce a datum, and the selector that may follow a sign. This file shows that they exclude each
other. A class that is a table of ranges is small enough to be checked point by point
(`mem_points_of_inRanges`), only word characters are compared range by range
(`isWord_eq_false_of_inRanges`), and the signs are a list of ten (`endsRule_iff_mem_signs`).
-/

namespace Checklist.Text

/-- What a test finds of all characters of a text, one by one. -/
theorem forall_mem_of_all {P : Char → Prop} [DecidablePred P] {s : Text}
    (h : (s.all fun c => decide (P c)) = true) : ∀ c ∈ s, P c :=
  fun c hc => of_decide_eq_true (List.all_eq_true.mp h c hc)

/-- What the characters below 128 have, one by one. -/
theorem of_ascii {P : Char → Prop} (h : ∀ n ∈ List.range 128, P (Char.ofNat n)) {c : Char}
    (hc : c.toNat < 128) : P c := by
  have hn := h c.toNat (List.mem_range.mpr hc)
  rwa [Char.ofNat_toNat] at hn

/-- The code points of a table of ranges, one by one. -/
def points (table : List (Nat × Nat)) : List Nat :=
  table.flatMap fun range => List.range' range.1 (range.2 + 1 - range.1)

/-- A code point that a table holds is one of its points. -/
theorem mem_points_of_inRanges {table : List (Nat × Nat)} {n : Nat}
    (h : inRanges table n = true) : n ∈ points table := by
  obtain ⟨range, hmem, hlo, hhi⟩ := exists_of_inRanges h
  refine List.mem_flatMap.mpr ⟨range, hmem, ?_⟩
  rw [List.mem_range'_1]
  omega

/-- Whether the table, which stands in rising order, has no point from `lo` to `hi`. -/
def leavesOut (lo hi : Nat) : List (Nat × Nat) → Bool
  | [] => true
  | (first, last) :: rest => Nat.blt hi first || Nat.blt last lo && leavesOut lo hi rest

theorem inRanges_eq_false_of_leavesOut {lo hi n : Nat} {table : List (Nat × Nat)}
    (h : leavesOut lo hi table = true) (hlo : lo ≤ n) (hhi : n ≤ hi) :
    inRanges table n = false := by
  induction table with
  | nil => rfl
  | cons range rest ih =>
      obtain ⟨first, last⟩ := range
      rw [leavesOut, Bool.or_eq_true, Bool.and_eq_true, Nat.blt_eq, Nat.blt_eq] at h
      rcases h with hbelow | ⟨habove, hrest⟩
      · have hfirst : ¬ first ≤ n := by omega
        simp [inRanges, hfirst]
      · simp [inRanges, ih hrest, Nat.lt_of_lt_of_le habove hlo]

/-- The points of a table are no word characters when its ranges lie beside the word characters. -/
theorem isWord_eq_false_of_inRanges {table : List (Nat × Nat)}
    (h : ∀ range ∈ table, leavesOut range.1 range.2 wordRanges = true) {c : Char}
    (hc : inRanges table c.toNat = true) : isWord c = false := by
  obtain ⟨range, hmem, hlo, hhi⟩ := exists_of_inRanges hc
  exact inRanges_eq_false_of_leavesOut (h range hmem) hlo hhi

/-- No blank is a word character. -/
theorem isWord_eq_false_of_isBlank {c : Char} (h : isBlank c = true) : isWord c = false :=
  isWord_eq_false_of_inRanges (by decide +kernel) h

/-- No blank is a digit. -/
theorem isDigit_eq_false_of_isBlank {c : Char} (h : isBlank c = true) : isDigit c = false := by
  have hall : ∀ n ∈ points blankRanges,
      (zeroPoints.find? fun start => start ≤ n && n ≤ start + 9) = none := by decide +kernel
  show ((zeroPoints.find? fun start => start ≤ c.toNat && c.toNat ≤ start + 9).map
    (c.toNat - ·)).isSome = false
  rw [hall c.toNat (mem_points_of_inRanges h)]
  rfl

/-- Every line boundary is a blank. -/
theorem isBlank_of_isBoundary {c : Char} (h : isBoundary c = true) : isBlank c = true := by
  simp only [isBoundary, Bool.or_eq_true, decide_eq_true_eq] at h
  rcases h with ((((((((rfl | rfl) | rfl) | rfl) | rfl) | rfl) | rfl) | rfl) | rfl) | rfl <;>
    decide

end Checklist.Text

namespace Checklist

open Text Token

theorem isPriorityMarker_iff {c : Char} : isPriorityMarker c = true ↔ c = '⏫' ∨ c = '🔼' := by
  simp [isPriorityMarker, Priority.all, Priority.marker?, eq_comm (b := c)]

/-- The signs that announce a datum. -/
def signs : List Char := ['#', '⛔', '🔁', '📅', '🛫', '⏳', '✅', '❌', '⏫', '🔼']

/-- A rule ends before the signs and before nothing else. -/
theorem endsRule_iff_mem_signs {c : Char} : endsRule c = true ↔ c ∈ signs := by
  have hdate : (DateKind.ofMarker? c).isSome = true ↔
      c = '📅' ∨ c = '🛫' ∨ c = '⏳' ∨ c = '✅' ∨ c = '❌' := by
    simp only [DateKind.ofMarker?, List.find?_isSome, DateKind.all, List.mem_cons,
      List.not_mem_nil, or_false, decide_eq_true_eq, exists_eq_or_imp, exists_eq_left,
      DateKind.marker, eq_comm (b := c)]
  simp only [endsRule, Bool.or_eq_true, decide_eq_true_eq, hdate, isPriorityMarker_iff, or_assoc]
  simp [signs, Marker.tag, Marker.dependency, Marker.recurrence]

/-- Ranges that hold the signs and no word characters. -/
def signRanges : List (Nat × Nat) :=
  [(0x23, 0x23), (0x23EB, 0x23F3), (0x26D4, 0x274C), (0x1F4C5, 0x1F6EB)]

theorem isWord_eq_false_of_endsRule {c : Char} (h : endsRule c = true) : isWord c = false := by
  have hall : ∀ c ∈ signs, inRanges signRanges c.toNat = true := forall_mem_of_all (by decide)
  exact isWord_eq_false_of_inRanges (by decide +kernel) (hall c (endsRule_iff_mem_signs.mp h))

/-- No sign is a blank, a digit or the selector, or may stand in a tag, in the name of another task
or at the start of one of the words "when done". -/
theorem class_of_endsRule {c : Char} (h : endsRule c = true) :
    isBlank c = false ∧ isDigit c = false ∧ isReferenceChar c = false ∧ isTagChar c = false ∧
      c ≠ Marker.selector ∧ c ≠ 'w' ∧ c ≠ 'W' ∧ c ≠ 'd' ∧ c ≠ 'D' := by
  have hall : ∀ c ∈ signs, isBlank c = false ∧ isDigit c = false ∧ c ≠ '-' ∧ c ≠ '/' ∧
      c ≠ Marker.selector ∧ c ≠ 'w' ∧ c ≠ 'W' ∧ c ≠ 'd' ∧ c ≠ 'D' :=
    forall_mem_of_all (by decide +kernel)
  obtain ⟨hblank, hdigit, hhyphen, hslash, hrest⟩ := hall c (endsRule_iff_mem_signs.mp h)
  have hword := isWord_eq_false_of_endsRule h
  exact ⟨hblank, hdigit, by simp [isReferenceChar, hword, hhyphen],
    by simp [isTagChar, hword, hhyphen, hslash], hrest⟩

theorem isBlank_of_endsRule {c : Char} (h : endsRule c = true) : isBlank c = false :=
  (class_of_endsRule h).1

theorem endsRule_marker (kind : DateKind) : endsRule kind.marker = true := by
  cases kind <;> decide

theorem endsRule_tag : endsRule Marker.tag = true := by decide

theorem endsRule_dependency : endsRule Marker.dependency = true := by decide

theorem endsRule_recurrence : endsRule Marker.recurrence = true := by decide

/-- The sign of a date announces no priority. -/
theorem isPriorityMarker_marker (kind : DateKind) : isPriorityMarker kind.marker = false := by
  cases kind <;> decide

end Checklist
