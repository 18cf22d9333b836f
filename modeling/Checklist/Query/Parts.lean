import Checklist.Query.Directive
import Checklist.Query.Spec
import Checklist.Text.Lines

/-!
# The parts of a query — one on each line, or words in a row

A query of several lines has one part on each line that is not blank. A query of one line is read in
the older dialect: its words are parts, except that a directive takes the words that belong to its
value. A first part `tasks` is the heading of a query block and is left out.
-/

namespace Checklist

/-- Whether the character has no width and is left out of queries. -/
def isInvisible (c : Char) : Bool :=
  c = '\u200b' || c = '\u200c' || c = '\u200d' || c = '\u2060' || c = '\ufeff'

/-- The query without invisible characters, and without blanks at its ends. -/
def normalizeQuery (text : Text) : Text := Text.trim (text.filter (!isInvisible ·))

/-- The items between commas, trimmed, without the blank ones. -/
def splitList (value : Text) : List Text :=
  ((Text.splitOn ',' value).map Text.trim).filter (!·.isEmpty)

/-- The value of a directive that has none yet: the next word, unless that is a directive. -/
def fillValue (value : Text) (words : List Text) : Text × List Text :=
  match words with
  | word :: rest =>
    if value.isEmpty ∧ (matchDirective word).isNone then (word, rest) else (value, words)
  | [] => (value, [])

/-- The value of a list that goes on: while it ends in a comma, the next word belongs to it. -/
def extendList (value : Text) : List Text → Text × List Text
  | [] => (value, [])
  | word :: rest =>
    if value.getLast? = some ',' then extendList (value ++ word) rest else (value, word :: rest)

/-- The value of an order with the word for its direction, if that comes next. -/
def extendSort (value : Text) : List Text → Text × List Text
  | [] => (value, [])
  | word :: rest =>
    if (SortDirection.ofName? (Text.lower word)).isSome then (value ++ ' ' :: word, rest)
    else (value, word :: rest)

/-- The whole value of a directive in a row of words, and the words after it. -/
def takeValue (k : Keyword) (value : Text) (words : List Text) : Text × List Text :=
  let (value, words) := fillValue value words
  if k.isList then extendList value words
  else if k = .sort then extendSort value words
  else (value, words)

theorem length_extendList_le (value : Text) (words : List Text) :
    (extendList value words).2.length ≤ words.length := by
  induction words generalizing value with
  | nil => simp [extendList]
  | cons word rest ih =>
    unfold extendList
    split
    · exact Nat.le_succ_of_le (ih _)
    · simp

theorem length_takeValue_le (k : Keyword) (value : Text) (words : List Text) :
    (takeValue k value words).2.length ≤ words.length := by
  have fill : (fillValue value words).2.length ≤ words.length := by
    unfold fillValue
    split
    · split <;> simp
    · simp
  unfold takeValue
  refine Nat.le_trans ?_ fill
  dsimp only
  split
  · exact length_extendList_le _ _
  · split
    · unfold extendSort
      split
      · simp_all
      · split <;> simp_all
    · exact Nat.le_refl _

/-- The parts of a row of words. -/
def partsOfWords : List Text → List Text
  | [] => []
  | word :: rest =>
    match matchDirective word with
    | none => word :: partsOfWords rest
    | some (k, value) =>
      (k.start ++ ' ' :: (takeValue k value rest).1) :: partsOfWords (takeValue k value rest).2
termination_by words => words.length
decreasing_by
  · simp
  · exact Nat.lt_succ_of_le (length_takeValue_le k value rest)

/-- The heading of a query block. -/
def queryHeading : Text := "tasks".toList

/-- The parts without a heading. -/
def dropHeading : List Text → List Text
  | [] => []
  | part :: rest => if Text.lower part = queryHeading then rest else part :: rest

/-- The parts of a query. -/
def splitQuery (text : Text) : List Text :=
  let text := normalizeQuery text
  dropHeading <|
    if text.contains '\n' then
      ((Text.lines text).map fun line => Text.trim line.body).filter (!·.isEmpty)
    else partsOfWords (Text.words text)

end Checklist
