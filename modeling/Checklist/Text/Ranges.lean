/-!
# Ranges — a set of code points as sorted intervals

Character classes are tables of closed intervals in rising order. `inRanges` walks such a table and
stops as soon as the code point lies before the next interval.
-/

namespace Checklist.Text

/-- Whether `n` lies in one of the intervals, which stand in rising order. -/
def inRanges : List (Nat × Nat) → Nat → Bool
  | [], _ => false
  | (lo, hi) :: rest, n => lo ≤ n && (n ≤ hi || inRanges rest n)

/-- A code point found in a table lies in one of its intervals. -/
theorem exists_of_inRanges {table : List (Nat × Nat)} {n : Nat} (h : inRanges table n = true) :
    ∃ range ∈ table, range.1 ≤ n ∧ n ≤ range.2 := by
  induction table with
  | nil => simp [inRanges] at h
  | cons range rest ih =>
    obtain ⟨lo, hi⟩ := range
    simp only [inRanges, Bool.and_eq_true, decide_eq_true_eq, Bool.or_eq_true] at h
    rcases h with ⟨hlo, hhi | h⟩
    · exact ⟨(lo, hi), by simp, hlo, hhi⟩
    · obtain ⟨range, hmem, hr⟩ := ih h
      exact ⟨range, by simp [hmem], hr⟩

end Checklist.Text
