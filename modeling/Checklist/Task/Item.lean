import Checklist.Text.Blank
import Checklist.Text.Digit

/-!
# Items — the shape of a checklist line

A line is a checklist item when it reads: blanks, an optional list marker (`-`, `*`, or a number and
a point) with blanks after it, one character in brackets, at least one blank, and content that fills
the rest of the line. The content begins behind all blanks and holds no line feed, except that one
last line feed may end the line.
-/

namespace Checklist

/-- A checklist line taken apart. -/
structure Item where
  /-- The blanks before the item. -/
  indent : Text
  /-- The character between the brackets. -/
  mark : Char
  /-- What stands behind the brackets and the blanks after them. -/
  content : Text
  deriving DecidableEq

namespace Item

/-- The text behind a list marker and the blanks after it, if there is one at its start. -/
def skipListMarker (s : Text) : Text :=
  match s with
  | '-' :: rest | '*' :: rest => Text.trimStart rest
  | _ =>
    if s.takeWhile Text.isDigit = [] then s
    else match s.dropWhile Text.isDigit with
      | '.' :: rest => Text.trimStart rest
      | _ => s

/-- The content that a text is, which may end in one line feed but not hold another. -/
def content? (s : Text) : Option Text :=
  match Text.cutAt? '\n' s with
  | none => some s
  | some (content, []) => some content
  | some (_, _ :: _) => none

/-- The mark and the content of what stands behind the list marker. -/
def body? : Text → Option (Char × Text)
  | '[' :: mark :: ']' :: blank :: rest =>
    if mark ≠ ']' ∧ Text.isBlank blank then
      (content? (Text.trimStart rest)).map fun content => (mark, content)
    else none
  | _ => none

/-- The item that the line is. -/
def ofLine? (line : Text) : Option Item :=
  (body? (skipListMarker (Text.trimStart line))).map fun (mark, content) =>
    ⟨line.takeWhile Text.isBlank, mark, content⟩

end Item

/-- Whether the line is a checklist item. -/
def isItem (line : Text) : Bool := (Item.ofLine? line).isSome

end Checklist
