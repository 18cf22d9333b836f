import Checklist.Text.Basic

/-!
# Lines — a text cut at its line boundaries

A line ends at a line feed, a carriage return, the two together, or one of eight rarer characters
that also bound lines. `lines` keeps each line with the characters that end it, so nothing is lost
(`flatMap_source_lines`) and no line holds a boundary (`not_isBoundary_of_mem_lines`).
-/

namespace Checklist.Text

/-- Whether a line ends at this character. -/
def isBoundary (c : Char) : Bool :=
  c = '\n' || c = '\r' || c = '\x0b' || c = '\x0c' || c = '\x1c' || c = '\x1d' || c = '\x1e' ||
    c = '\u0085' || c = '\u2028' || c = '\u2029'

/-- A line and the characters that end it, of which the last line may have none. -/
structure Line where
  body : Text
  ending : Text
  deriving DecidableEq

/-- The characters that the line was cut from. -/
def Line.source (line : Line) : Text := line.body ++ line.ending

/-- The lines of the text, each with its ending. -/
def lines : Text → List Line
  | [] => []
  | '\r' :: '\n' :: s => ⟨[], ['\r', '\n']⟩ :: lines s
  | c :: s =>
    if isBoundary c then ⟨[], [c]⟩ :: lines s
    else match lines s with
      | [] => [⟨[c], []⟩]
      | line :: rest => ⟨c :: line.body, line.ending⟩ :: rest

/-- The text with every carriage return, alone or before a line feed, read as a line feed. -/
def unifyNewlines : Text → Text
  | [] => []
  | '\r' :: '\n' :: s => '\n' :: unifyNewlines s
  | c :: s => (if c = '\r' then '\n' else c) :: unifyNewlines s

/-- Putting the lines together again gives the text back. -/
theorem flatMap_source_lines (s : Text) : (lines s).flatMap Line.source = s := by
  fun_induction lines s with
  | case1 => rfl
  | case2 s ih => simpa [Line.source] using ih
  | case3 c s _ hc ih => simpa [Line.source] using ih
  | case4 c s _ hc heq ih =>
    rw [heq] at ih
    simp only [List.flatMap_nil] at ih
    subst ih
    rfl
  | case5 c s _ hc line rest heq ih =>
    rw [heq] at ih
    simpa [Line.source] using ih

/-- No line holds a boundary. -/
theorem not_isBoundary_of_mem_lines {s : Text} {line : Line} (h : line ∈ lines s) :
    ∀ c ∈ line.body, isBoundary c = false := by
  fun_induction lines s generalizing line with
  | case1 => simp at h
  | case2 s ih =>
    rcases List.mem_cons.mp h with rfl | h
    · simp
    · exact ih h
  | case3 c s _ hc ih =>
    rcases List.mem_cons.mp h with rfl | h
    · simp
    · exact ih h
  | case4 c s _ hc heq ih =>
    simp only [List.mem_singleton] at h
    subst h
    simpa using hc
  | case5 c s _ hc first rest heq ih =>
    rcases List.mem_cons.mp h with rfl | h
    · simp only [List.mem_cons, forall_eq_or_imp]
      exact ⟨by simpa using hc, ih (by simp [heq])⟩
    · exact ih (by simp [heq, h])

end Checklist.Text
