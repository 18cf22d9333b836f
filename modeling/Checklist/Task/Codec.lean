import Checklist.Task.Item
import Checklist.Task.Token
import Checklist.Calendar.IsoDate

/-!
# The codec — from lines to tasks and back

`Codec.parse` reads the task that a checklist line writes; it never fails on an item, and leaves out
what it cannot use. `Codec.format` writes a task as one line, its data in a fixed order. Both follow
the tag style of the notes; writing also needs to know the day, for done tasks without a date.
-/

namespace Checklist

open Text

/-- How the lines of some notes are read and written. -/
structure Codec where
  style : TagStyle
  /-- The day on which a done task without a date is taken to be done. -/
  today : Date

/-- The priority that the signs in the content give: the highest of them. -/
def parsePriority (content : Text) : Priority :=
  if content.any (Priority.high.marker? = some ·) then .high
  else if content.any (Priority.medium.marker? = some ·) then .medium
  else .low

/-- The dates of the content; of one kind the last that is in the calendar counts. -/
def parseDates (content : Text) : TaskDates :=
  (Token.date.tokens content).foldl
    (fun dates (kind, written) =>
      if (Date.ofIso? written).isSome then dates.set kind (some written) else dates) {}

/-- The dates of the content that no calendar knows. -/
def droppedDates (content : Text) : List (DateKind × Text) :=
  (Token.date.tokens content).filter fun (_, written) => (Date.ofIso? written).isNone

/-- The recurrence that the line gives, and the content without it. Its rule loses the words "when
done"; when they stand anywhere in the line, the rule counts from the day the task was done. -/
def parseRecurrence (content line : Text) : Option Recurrence × Text :=
  match Token.cutRecurrence? content with
  | none => (none, content)
  | some (written, rest) =>
    let rule := collapse (Token.whenDone.blankOut written)
    (if rule.isEmpty then none else some ⟨rule, Token.whenDone.finds line⟩, rest)

/-- The description that is left when all tokens are taken out of the content. -/
def parseDescription (style : TagStyle) (content : Text) : Text :=
  let text := Token.priority.blankOut content
  let text := Token.date.blankOut text
  let text := (Token.tag style).blankOut text
  let text := Token.dependency.blankOut text
  let description := collapse text
  if description.isEmpty then untitled else description

/-- The task of an item that was read from `line`. -/
def Item.toTask (item : Item) (style : TagStyle) (line id : Text) (source : Provenance) : Task :=
  let (recurrence, rest) := parseRecurrence item.content line
  { id
    description := parseDescription style rest
    status := .ofMark item.mark
    priority := parsePriority item.content
    dates := parseDates item.content
    tags := distinct ((Token.tag style).tokens item.content)
    dependencies := distinct (Token.dependency.tokens item.content)
    recurrence
    sourceText := line
    path := source.path
    created := source.created
    updated := source.updated
    indent := item.indent }

/-- A token's sign and text, unless the text is missing or empty. -/
def markedText (marker : Char) (text : Option Text) : List Text :=
  match text with
  | some (c :: s) => [marker :: c :: s]
  | _ => []

namespace Codec

/-- The task that the line writes, if it is a checklist item. -/
def parse (codec : Codec) (line id : Text) (source : Provenance) : Option Task :=
  (Item.ofLine? line).map fun item => item.toTask codec.style line id source

/-- A tag with the signs of the style. -/
def formatTag (style : TagStyle) (tag : Text) : Text :=
  match style with
  | .wrapped => Marker.tag :: tag ++ [Marker.tag]
  | .bare => Marker.tag :: tag

/-- The recurrence of a task as it is written. -/
def recurrenceParts : Option Recurrence → List Text
  | some ⟨c :: rule, fromDone⟩ =>
    (Marker.recurrence :: ' ' :: c :: rule) :: (if fromDone then ["when done".toList] else [])
  | _ => []

/-- The day on which a done task was done: its own, or today. -/
def completionDate (codec : Codec) (t : Task) : Text :=
  match t.dates.done with
  | some (c :: s) => c :: s
  | _ => codec.today.iso

/-- The parts of a task's line in their order. -/
def parts (codec : Codec) (t : Task) : List Text :=
  [t.indent ++ ['-', ' ', '[', t.status.mark, ']']] ++
    t.priority.marker?.toList.map ([·]) ++
    [t.description] ++
    [DateKind.due, .start, .scheduled, .cancelled].flatMap
      (fun kind => markedText kind.marker (t.dates.get kind)) ++
    recurrenceParts t.recurrence ++
    (if t.status = .done then [DateKind.done.marker :: ' ' :: codec.completionDate t] else []) ++
    t.tags.map (formatTag codec.style) ++
    t.dependencies.map (Marker.dependency :: ·)

/-- The line that writes the task. -/
def format (codec : Codec) (t : Task) : Text := joinWith [' '] (codec.parts t)

end Codec

end Checklist
