import Checklist.Task.Marker
import Checklist.Task.Scan
import Checklist.Text.Word
import Checklist.Text.Digit
import Checklist.Text.Lines

/-!
# Tokens — the data inside the content of an item

Each kind of datum is a token with a scanner of its own: the sign of a priority, a sign and a date,
a tag, a sign and the name of another task. A sign may be followed by a selector and, before its
datum, by blanks. The rule of a recurrence is not delimited; it runs up to the next sign.
-/

namespace Checklist.Token

open Text

/-- The text behind a selector, if it begins with one. -/
def skipSelector : Text → Text
  | [] => []
  | c :: s => if c = Marker.selector then s else c :: s

/-- The text behind a selector and blanks. -/
def skipGap (s : Text) : Text := trimStart (skipSelector s)

/-- The sign of a priority. -/
def priority : Scanner Unit := fun _ s =>
  match s with
  | c :: s => if isPriorityMarker c then some ((), skipSelector s) else none
  | [] => none

/-- Ten characters in the shape of a date, four, two and two digits joined by hyphens, and the text
behind them. The digits may be of any script. -/
def takeDate? : Text → Option (Text × Text)
  | y₁ :: y₂ :: y₃ :: y₄ :: h₁ :: m₁ :: m₂ :: h₂ :: d₁ :: d₂ :: s =>
    if [y₁, y₂, y₃, y₄, m₁, m₂, d₁, d₂].all isDigit ∧ h₁ = '-' ∧ h₂ = '-' then
      some ([y₁, y₂, y₃, y₄, h₁, m₁, m₂, h₂, d₁, d₂], s)
    else none
  | _ => none

/-- A sign and its date, which need not be in the calendar. -/
def date : Scanner (DateKind × Text) := fun _ s =>
  match s with
  | c :: s => (DateKind.ofMarker? c).bind fun kind =>
    (takeDate? (skipGap s)).map fun (written, rest) => ((kind, written), rest)
  | [] => none

/-- Whether the character can be part of the name of another task. -/
def isReferenceChar (c : Char) : Bool := isWord c || c = '-'

/-- The sign of a dependency and the name of the other task. -/
def dependency : Scanner Text := fun _ s =>
  match s with
  | c :: s =>
    if c = Marker.dependency then
      match (skipGap s).takeWhile isReferenceChar with
      | [] => none
      | name => some (name, (skipGap s).dropWhile isReferenceChar)
    else none
  | [] => none

/-- Whether the character can be part of a tag. -/
def isTagChar (c : Char) : Bool := isWord c || c = '/' || c = '-'

/-- A tag between two signs. -/
def wrappedTag : Scanner Text := fun _ s =>
  match s with
  | c :: s =>
    if c = Marker.tag then
      match s.takeWhile isTagChar, s.dropWhile isTagChar with
      | t :: tag, d :: rest => if d = Marker.tag then some (t :: tag, rest) else none
      | _, _ => none
    else none
  | [] => none

/-- A tag behind a sign that stands at the start or after a blank. -/
def bareTag : Scanner Text := fun before s =>
  match s with
  | c :: s =>
    if c = Marker.tag ∧ before.all isBlank then
      match s.takeWhile isTagChar with
      | [] => none
      | tag => some (tag, s.dropWhile isTagChar)
    else none
  | [] => none

/-- A tag in this style. -/
def tag : TagStyle → Scanner Text
  | .wrapped => wrappedTag
  | .bare => bareTag

/-- The text behind the letters of `word`, which may be capitals. -/
def takeLetters? : (word : Text) → Text → Option Text
  | [], s => some s
  | _ :: _, [] => none
  | l :: word, c :: s => if c = l ∨ c = l.toUpper then takeLetters? word s else none

/-- The words "when done" in any case, with no word character directly around them. -/
def whenDone : Scanner Unit := fun before s =>
  if before.any isWord then none
  else do
    let gap ← takeLetters? "when".toList s
    if !(gap.head?.any isBlank) then none
    let rest ← takeLetters? "done".toList (trimStart gap)
    if rest.head?.any isWord then none
    some ((), rest)

/-- Whether the rule of a recurrence goes on with this character. -/
def isRuleChar (c : Char) : Bool := !endsRule c && c ≠ '\n'

/-- Cut out the first recurrence: its rule as it is written, and the content with a space in its
place. -/
def cutRecurrence? (content : Text) : Option (Text × Text) :=
  (cutAt? Marker.recurrence content).map fun (before, after) =>
    let after := skipGap after
    (after.takeWhile isRuleChar, before ++ ' ' :: after.dropWhile isRuleChar)

end Checklist.Token
