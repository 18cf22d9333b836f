import Checklist.Command.Options
import Checklist.Task.Basic
import Checklist.Calendar.Moment
import Checklist.Files.Path

/-!
# Commands — what the words of a command line ask for

The words begin with options that hold for every command; then comes the name of a command with its
own options and arguments. The two halves are read apart, as the first is put into effect before the
second is looked at. What the user writes freely is kept as a raw text.
-/

namespace Checklist

/-- What holds for every command. -/
structure GlobalOptions where
  verbose : Bool
  quiet : Bool
  tagStyle : Option TagStyle
  /-- The file of settings to use. -/
  config : Option Path

/-- A command. -/
inductive Command where
  /-- Print the task that a line writes. -/
  | parse (line id : RawText)
  /-- List the tasks at a place that answer a query. -/
  | query (place query : Option RawText) (asJson : Bool)
  /-- Count the tasks at a place. -/
  | stats (place query : Option RawText)
  /-- List the tags at a place. -/
  | tags (place : Option RawText)
  /-- Move a task to a status and write its line anew. -/
  | setStatus (place id : RawText) (status : Status)
  /-- Append a new task to a note. -/
  | add (note : Path) (description : RawText) (priority : Priority) (due : Option Date)
      (tags : List RawText)

namespace Command

/-- The options that hold for every command. -/
def globalForms : List OptionForm := [
  ⟨"verbose".toList, some 'v', false⟩, ⟨"quiet".toList, some 'q', false⟩,
  ⟨"tag-style".toList, none, true⟩, ⟨"config".toList, none, true⟩]

/-- The value of an option that names a choice. -/
def choice? {α : Type} (words : Words) (name : String) (ofName? : Text → Option α) :
    Except UsageError (Option α) :=
  match words.value? name with
  | none => .ok none
  | some value =>
    match value.toText?.bind ofName? with
    | some choice => .ok (some choice)
    | none => .error (.badValue name.toList)

/-- The value of an option or argument that is the path of a file, which the system must be able to
look up. -/
def readPath (name : String) (value : RawText) : Except UsageError Path :=
  let path := Path.ofRaw value
  if path.fault?.isSome || path.hasNull then .error (.badValue name.toList) else .ok path

/-- The options that hold for every command, the name of the command, and its own words. -/
def readGlobal (words : List RawText) :
    Except UsageError (GlobalOptions × RawText × List RawText) := do
  let words ← OptionForm.read globalForms false words
  let tagStyle ← choice? words "tag-style" TagStyle.ofName?
  let config ← (words.value? "config").mapM (readPath "config")
  match words.arguments with
  | [] => .error .missingCommand
  | name :: rest =>
    .ok (⟨words.has "verbose", words.has "quiet", tagStyle, config⟩, name, rest)

/-- The day that `YYYY-M-D` names. Month and day may be written with one digit, and a blank may
stand for the first digit of the day. -/
def readDay? (s : Text) : Option Date :=
  match Text.splitOn '-' s with
  | [[y₁, y₂, y₃, y₄], month, day] => do
    let year ← [y₁, y₂, y₃, y₄].foldlM (fun n c => (Text.digitValue? c).map (10 * n + ·)) 0
    let month ← match month with
      | [a] => Text.asciiDigit? a
      | [a, b] => Moment.pair? (fun _ => false) a b
      | _ => none
    let day ← match day with
      | [a] | [' ', a] => Text.asciiDigit? a
      | [a, b] => Moment.pair? (fun tens => tens = 1 || tens = 2) a b
      | _ => none
    Date.of? year month day
  | _ => none

/-- The value of an option that names a day. -/
def day? (words : Words) (name : String) : Except UsageError (Option Date) :=
  choice? words name readDay?

/-- The one argument that may be left out. -/
def optionalArgument (words : Words) : Except UsageError (Option RawText) :=
  match words.arguments with
  | [] => .ok none
  | [place] => .ok (some place)
  | _ => .error .extraArguments

/-- A long option with a value and no letter. -/
def valued (name : String) : OptionForm := ⟨name.toList, none, true⟩

/-- The option for a query. -/
def queryForm : OptionForm := ⟨"query".toList, some 'Q', true⟩

/-- The words of a command taken apart. -/
def readOwn (forms : List OptionForm) (words : List RawText) : Except UsageError Words :=
  OptionForm.read forms true words

/-- The words of `parse`. -/
def readParse (words : List RawText) : Except UsageError Command := do
  let words ← readOwn [valued "id"] words
  match words.arguments with
  | [] => .error (.missingArgument "LINE".toList)
  | [line] => .ok (.parse line ((words.value? "id").getD (.ofText "cli".toList)))
  | _ => .error .extraArguments

/-- The words of `query`. -/
def readQuery (words : List RawText) : Except UsageError Command := do
  let words ← readOwn [queryForm, ⟨"json".toList, none, false⟩] words
  let place ← optionalArgument words
  .ok (.query place (words.value? "query") (words.has "json"))

/-- The words of `stats`. -/
def readStats (words : List RawText) : Except UsageError Command := do
  let words ← readOwn [queryForm] words
  let place ← optionalArgument words
  .ok (.stats place (words.value? "query"))

/-- The words of `tags`. -/
def readTags (words : List RawText) : Except UsageError Command := do
  let words ← readOwn [] words
  let place ← optionalArgument words
  .ok (.tags place)

/-- The words of `set-status`. -/
def readSetStatus (words : List RawText) : Except UsageError Command := do
  let words ← readOwn [] words
  match words.arguments with
  | [] => .error (.missingArgument "LOCATION".toList)
  | [_] => .error (.missingArgument "TASK_ID".toList)
  | [_, _] => .error (.missingArgument "STATUS".toList)
  | [place, id, status] =>
    match status.toText?.bind Status.ofName? with
    | some status => .ok (.setStatus place id status)
    | none => .error (.badValue "STATUS".toList)
  | _ => .error .extraArguments

/-- The words of `add`. -/
def readAdd (words : List RawText) : Except UsageError Command := do
  let words ← readOwn [valued "priority", valued "due", valued "tag"] words
  let priority ← choice? words "priority" Priority.ofName?
  let due ← day? words "due"
  match words.arguments with
  | [] => .error (.missingArgument "NOTE".toList)
  | [_] => .error (.missingArgument "DESCRIPTION".toList)
  | [note, description] => do
    let note ← readPath "NOTE" note
    .ok (.add note description (priority.getD .low) due (words.values "tag"))
  | _ => .error .extraArguments

/-- How the words of each command are read, by the name of the command. -/
def readers : List (Text × (List RawText → Except UsageError Command)) := [
  ("parse".toList, readParse), ("query".toList, readQuery), ("stats".toList, readStats),
  ("tags".toList, readTags), ("set-status".toList, readSetStatus), ("add".toList, readAdd)]

/-- How the words of the command of that name are read. -/
def reader? (name : RawText) : Option (List RawText → Except UsageError Command) :=
  name.toText?.bind fun name => readers.lookup name

end Command

end Checklist
