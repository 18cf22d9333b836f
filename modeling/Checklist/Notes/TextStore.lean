import Checklist.Notes.Record

/-!
# Text stores — notes held in memory

A text store is the lines of a text under a name. Its records are its checklist lines, with the
number of the line for an id, so an id stays good whatever is done to other lines.
-/

namespace Checklist

/-- The lines of a text, and the name it is known by. -/
structure TextStore where
  lines : List Text
  name : Text
  deriving DecidableEq

namespace TextStore

/-- The name of a text that was read from standard input. -/
def standardInput : Text := "stdin".toList

/-- The store of a text. -/
def ofText (text name : Text) : TextStore := ⟨(Text.lines text).map Text.Line.body, name⟩

/-- The text of the lines, each of them ended by a line feed. -/
def text (store : TextStore) : Text := store.lines.flatMap (· ++ ['\n'])

/-- The id of the line with this number, counted from 1. -/
def lineId (number : Nat) : Text := "line-".toList ++ Text.decimal number

/-- The checklist lines, each under its id. -/
def records (store : TextStore) : List Record :=
  (store.lines.zipIdx 1).filterMap fun (line, number) =>
    if isItem line then some ⟨lineId number, line, { path := some store.name }⟩ else none

/-- The lines with the one of that id replaced, the first of them having this number. -/
def replaceIn (id line : Text) : (number : Nat) → List Text → Option (List Text)
  | _, [] => none
  | number, old :: rest =>
    if lineId number = id then some (line :: rest)
    else (replaceIn id line (number + 1) rest).map (old :: ·)

/-- The store with the line of that id replaced. -/
def replaceLine (store : TextStore) (id line : Text) : Except NoteError TextStore :=
  match replaceIn id line 1 store.lines with
  | some lines => .ok { store with lines }
  | none => .error (.unknownRecord (.ofText id))

/-- The tasks of the store. -/
def tasks (store : TextStore) (codec : Codec) : List Task := codec.parseRecords store.records

/-- The store with the task written over its line, and the line. -/
def saveTask (store : TextStore) (codec : Codec) (t : Task) :
    Except NoteError (Text × TextStore) :=
  (store.replaceLine t.id (codec.format t)).map fun store => (codec.format t, store)

end TextStore

end Checklist
