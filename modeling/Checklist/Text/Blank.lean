import Checklist.Text.Ranges
import Checklist.Text.Basic

/-!
# Blank characters — trimming, words and collapsed text

A character is blank when it is white space or one of the four information separators. A text is
cut into words at runs of blanks, and `collapse` writes the words with single spaces between them:
it leaves no blank at either end and no two in a row.
-/

namespace Checklist.Text

/-- The blank code points. -/
def blankRanges : List (Nat × Nat) := [
  (0x9, 0xD), (0x1C, 0x20), (0x85, 0x85), (0xA0, 0xA0), (0x1680, 0x1680), (0x2000, 0x200A),
  (0x2028, 0x2029), (0x202F, 0x202F), (0x205F, 0x205F), (0x3000, 0x3000)]

/-- White space in the wide sense: every space, tabulation, line and information separator. -/
def isBlank (c : Char) : Bool := inRanges blankRanges c.toNat

/-- The text without the blanks at its start. -/
def trimStart (s : Text) : Text := s.dropWhile isBlank

/-- The text without the blanks at its end. -/
def trimEnd (s : Text) : Text := (trimStart s.reverse).reverse

/-- The text without the blanks at either end. -/
def trim (s : Text) : Text := trimEnd (trimStart s)

/-- The longest stretches without a blank, in order. -/
def words : Text → List Text
  | [] => []
  | c :: s =>
    if isBlank c then words s
    else match s with
      | [] => [[c]]
      | d :: _ =>
        if isBlank d then [c] :: words s
        else match words s with
          | [] => [[c]]
          | word :: rest => (c :: word) :: rest

/-- The words of the text with one space between neighbours. -/
def collapse (s : Text) : Text := joinWith [' '] (words s)

theorem trimStart_append_of_blank {b s : Text} (h : ∀ c ∈ b, isBlank c = true) :
    trimStart (b ++ s) = trimStart s := by
  induction b with
  | nil => rfl
  | cons c b ih =>
    simp only [List.mem_cons, forall_eq_or_imp] at h
    simp only [trimStart, List.cons_append, List.dropWhile_cons, h.1, if_true]
    exact ih h.2

/-- Words hold no blank. -/
theorem not_isBlank_of_mem_words {s word : Text} (h : word ∈ words s) :
    ∀ c ∈ word, isBlank c = false := by
  fun_induction words s generalizing word with
  | case1 => simp at h
  | case2 c s hc ih => exact ih h
  | case3 c hc => simp_all
  | case4 c hc d s hd ih =>
    rcases List.mem_cons.mp h with rfl | h
    · simpa using hc
    · exact ih h
  | case5 c hc d s hd heq ih => simp_all
  | case6 c hc d s hd first rest heq ih =>
    rw [heq] at h
    rcases List.mem_cons.mp h with rfl | h
    · simp only [List.mem_cons, forall_eq_or_imp]
      exact ⟨by simpa using hc, ih (by simp [heq])⟩
    · exact ih (by simp [heq, h])

/-- No word is empty. -/
theorem ne_nil_of_mem_words {s word : Text} (h : word ∈ words s) : word ≠ [] := by
  fun_induction words s generalizing word with
  | case1 => simp at h
  | case2 c s hc ih => exact ih h
  | case3 c hc => simp_all
  | case4 c hc d s hd ih =>
    rcases List.mem_cons.mp h with rfl | h
    · simp
    · exact ih h
  | case5 c hc d s hd heq ih => simp_all
  | case6 c hc d s hd first rest heq ih =>
    rw [heq] at h
    rcases List.mem_cons.mp h with rfl | h
    · simp
    · exact ih (by simp [heq, h])

end Checklist.Text
