import Checklist.Notes.Notebook
import Checklist.Notes.TextStore
import Checklist.Task.Lifecycle

/-!
# Sources — any store of notes

A source is a text store or a notebook. `Source.detect` tells from a place given by the user which
of them it means: `-` is standard input, anything else a path. Replacing a line changes the source
or the file tree.
-/

namespace Checklist

/-- A store of notes. -/
inductive Source where
  | text (store : TextStore)
  | notebook (book : Notebook)

namespace Source

/-- The place that means standard input. -/
def standardInputPlace : RawText := [.char '-']

/-- Why the home directory of another user is not known. -/
def unknownHome (path : Path) : NoteError :=
  let user := path.user?.getD []
  match user.nameFault? with
  | some error => .unencodable error
  | none => if user.contains Path.null then .file ⟨.nullByte, path⟩ else .unknownHome

/-- The source at a place. -/
def detect (tree : FileTree) (place : RawText) (input : Text) : Except NoteError Source :=
  if place = standardInputPlace then .ok (.text (.ofText input TextStore.standardInput))
  else
    let path := Path.ofRaw place
    match path.expandHome tree.home with
    | none => .error (unknownHome path)
    | some path =>
      match Notebook.isAt tree path with
      | .ok true => .ok (.notebook ⟨path⟩)
      | .ok false => .error (.noNotes place)
      | .error e => .error (.file e)

/-- The checklist lines of the source. -/
def records (source : Source) (tree : FileTree) : Except NoteError (List Record) :=
  match source with
  | .text store => .ok store.records
  | .notebook book => book.records tree

/-- The tasks of the source. -/
def tasks (source : Source) (tree : FileTree) (codec : Codec) : Except NoteError (List Task) :=
  (source.records tree).map codec.parseRecords

/-- The file tree and the source with the line of that id replaced. -/
def replaceLine (source : Source) (tree : FileTree) (id line : Text) :
    FileTree × Except NoteError Source :=
  match source with
  | .text store => (tree, (store.replaceLine id line).map .text)
  | .notebook book =>
    let (tree, result) := book.replaceLine tree (.ofText id) (.ofText line)
    (tree, result.map fun () => source)

/-- The file tree, the line of the task, and the source with the task written over its line. -/
def saveTask (source : Source) (tree : FileTree) (codec : Codec) (t : Task) :
    FileTree × Except NoteError (Text × Source) :=
  let (tree, result) := source.replaceLine tree t.id (codec.format t)
  (tree, result.map fun source => (codec.format t, source))

end Source

end Checklist
