import Checklist.Notes.Record
import Checklist.Hash.Sha256
import Checklist.Text.Lines

/-!
# Notebooks — notes in files

A notebook is a note file, or a directory with note files anywhere below it. Its records are the
checklist lines of its notes, in the order of their paths. The id of a line is made from the path of
its note and its number, so it stays good until lines move. Notes that are not valid UTF-8 are
passed over. Replacing or appending a line writes that one note anew.

An id can be made only where the path of the note is a text, and a line can be written only when it
is one. Reading asks for the ids of checklist lines alone, replacing for those of all lines that it
comes by. A note is emptied before it is written, so a line that is no text leaves it empty.
-/

namespace Checklist

/-- The notes at a path. -/
structure Notebook where
  root : Path
  deriving DecidableEq

/-- What reading a note gave. -/
inductive Reading where
  | text (text : Text)
  | undecodable (error : Utf8.DecodeError)
  | failed (error : FileError)

namespace Notebook

/-- The notebook at a path, if there is anything. -/
def open? (tree : FileTree) (root : Path) : Except NoteError Notebook :=
  match tree.probe root with
  | .ok (some _) => .ok ⟨root⟩
  | .ok none => .error (.noNotes root.toRaw)
  | .error e => .error (.file e)

/-- Whether there is a notebook at the path: a file that is named like a note, or a directory. -/
def isAt (tree : FileTree) (path : Path) : Except FileError Bool :=
  (tree.probe path).map fun
    | some .directory => true
    | some (.file _) => path.isNoteName
    | none => false

/-- The id of a line, from the path of its note and its number. -/
def lineId (path : Text) (number : Int) : Text :=
  let digest := Sha256.hexDigest (Utf8.encode (path ++ ':' :: Text.signedDecimal number))
  "md-".toList ++ digest.take 8

/-- The text that is needed for a raw text. -/
def needText (s : RawText) : Except NoteError Text := s.asText.mapError .unencodable

/-- The paths of the notes, in order. -/
def notes (book : Notebook) (tree : FileTree) : List Path :=
  if tree.isFile book.root then [book.root]
  else match tree.locate book.root with
    | .error _ => []
    | .ok base =>
      let found := ((tree.below base).map (·.map RawText.decodeName)).filter fun names =>
        Path.hasNoteEnding (names.getLast?.getD [])
      (found.mergeSort (lexLe RawText.le)).map book.root.join

/-- The path of a note as its records tell it: from the root, or the bare name when the root is the
note itself. -/
def relative (book : Notebook) (tree : FileTree) (note : Path) : RawText :=
  if tree.isFile book.root then note.name
  else match note.relativeTo? book.root with
    | some names => Text.joinWith [.char '/'] names
    | none => note.name

/-- What the contents of a file say. -/
def readText (file : File) : Except Utf8.DecodeError Text :=
  (Utf8.decode file.bytes).map Text.unifyNewlines

/-- What reading the note gives. -/
def read (tree : FileTree) (note : Path) : Reading :=
  match tree.readFile note with
  | .error e => .failed e
  | .ok file =>
    match readText file with
    | .ok text => .text text
    | .error e => .undecodable e

/-- What reading each note gives, in order. -/
def readings (book : Notebook) (tree : FileTree) : List (Path × Reading) :=
  (book.notes tree).map fun note => (note, read tree note)

/-- Where a line is stored, and when the note was changed. -/
def provenance (tree : FileTree) (path : Text) (note : Path) : Except NoteError Provenance := do
  let file ← (tree.readFile note).mapError .file
  let updated ← (isoOfStamp file.modified).mapError .stamp
  let created ← (isoOfStamp file.changed).mapError .stamp
  .ok ⟨some path, some created, some updated⟩

/-- The records of a note with this text. -/
def recordsOfText (path : Text) (source : Provenance) (text : Text) : List Record :=
  ((Text.lines text).zipIdx 1).filterMap fun (line, number) =>
    if isItem line.body then some ⟨lineId path number, line.body, source⟩ else none

/-- The records of a note by what reading it gave. What all of them need is asked for with the first
of them, so a note without checklist lines may have any path and any times. -/
def recordsIn (book : Notebook) (tree : FileTree) (note : Path) :
    Reading → Except NoteError (List Record)
  | .failed e => .error (.file e)
  | .undecodable _ => .ok []
  | .text text =>
    if (Text.lines text).any (isItem ·.body) then do
      let path ← needText (book.relative tree note)
      let source ← provenance tree path note
      .ok (recordsOfText path source text)
    else .ok []

/-- The records of the notes that were read. -/
def recordsOf (book : Notebook) (tree : FileTree) :
    List (Path × Reading) → Except NoteError (List Record)
  | [] => .ok []
  | (note, reading) :: rest => do
    let found ← book.recordsIn tree note reading
    let more ← recordsOf book tree rest
    .ok (found ++ more)

/-- The checklist lines of all notes. -/
def records (book : Notebook) (tree : FileTree) : Except NoteError (List Record) :=
  recordsOf book tree (book.readings tree)

/-- What is to be written to a note so that its line with this number is new. -/
structure Edit where
  note : Path
  number : Nat
  /-- The new text of the note, which is none when the new line is none. -/
  text : RawText

/-- The line feeds and carriage returns at the end of a line. -/
def keptEnding (ending : Text) : Text :=
  (ending.reverse.takeWhile fun c => c = '\n' || c = '\r').reverse

/-- The number of the line with that id and the text with the line replaced, the first of the lines
having this number. -/
def replaceIn (path : Text) (id line : RawText) :
    (number : Nat) → List Text.Line → Option (Nat × RawText)
  | _, [] => none
  | number, old :: rest =>
    if .ofText (lineId path number) = id then
      some (number, line ++ .ofText (keptEnding old.ending ++ rest.flatMap Text.Line.source))
    else
      (replaceIn path id line (number + 1) rest).map fun (found, text) =>
        (found, .ofText old.source ++ text)

/-- How a note is to be written by what reading it gave, if it has a line with that id. A note
without lines may have any path. -/
def editIn (book : Notebook) (tree : FileTree) (id line : RawText) (note : Path) :
    Reading → Except NoteError (Option Edit)
  | .failed e => .error (.file e)
  | .undecodable _ => .ok none
  | .text text =>
    if (Text.lines text).isEmpty then .ok none
    else do
      let path ← needText (book.relative tree note)
      .ok ((replaceIn path id line 1 (Text.lines text)).map fun (number, text) =>
        ⟨note, number, text⟩)

/-- The first note that was read and has a line with that id. -/
def editOf (book : Notebook) (tree : FileTree) (id line : RawText) :
    List (Path × Reading) → Except NoteError Edit
  | [] => .error (.unknownRecord id)
  | (note, reading) :: rest => do
    match ← book.editIn tree id line note reading with
    | some edit => .ok edit
    | none => editOf book tree id line rest

/-- How a line is to be replaced. -/
def planReplace (book : Notebook) (tree : FileTree) (id line : RawText) : Except NoteError Edit :=
  editOf book tree id line (book.readings tree)

/-- The tree with a text written to a note. The note is emptied first, and stays so when the raw
text is none. -/
def writeNote (tree : FileTree) (note : Path) (text : RawText) :
    FileTree × Except NoteError Unit :=
  let (bytes, result) := match needText text with
    | .ok text => (Utf8.encode text, .ok ())
    | .error e => ([], .error e)
  match tree.writeFile note bytes with
  | .ok after => (after, result)
  | .error e => (tree, .error (.file e))

/-- The tree with the line of that id replaced. -/
def replaceLine (book : Notebook) (tree : FileTree) (id line : RawText) :
    FileTree × Except NoteError Unit :=
  match book.planReplace tree id line with
  | .ok edit => writeNote tree edit.note edit.text
  | .error e => (tree, .error e)

/-- What a note with this text reads like with a line more, and the number of that line. -/
def appendedText (content : Text) (line : RawText) : RawText × Nat :=
  let content :=
    if content = [] ∨ content.getLast? = some '\n' then content else content ++ ['\n']
  (.ofText content ++ line ++ [.char '\n'], content.count '\n' + 1)

/-- The text of a note that may not be there yet, but must not be a directory. -/
def contentOf (tree : FileTree) (note : Path) : Except NoteError Text :=
  match tree.probe note with
  | .error e => .error (.file e)
  | .ok (some .directory) => .error .noteRequired
  | .ok none => .ok []
  | .ok (some (.file file)) => (readText file).mapError .undecodable

/-- How a line is to be appended to a note. -/
def planAppend (tree : FileTree) (line : RawText) (note : Path) : Except NoteError Edit := do
  let content ← contentOf tree note
  let (text, number) := appendedText content line
  .ok ⟨note, number, text⟩

/-- The record of a line that was written to a note under this number. -/
def recordOf (book : Notebook) (tree : FileTree) (note : Path) (number : Nat) (line : RawText) :
    Except NoteError Record := do
  let path ← needText (book.relative tree note)
  let source ← provenance tree path note
  let line ← needText line
  .ok ⟨lineId path number, line, source⟩

/-- The tree with a line more in the note, and the record of the line. The record is made last, so
the line may be in the note when that fails. -/
def appendLine (book : Notebook) (tree : FileTree) (line : RawText) (note : Option Path) :
    FileTree × Except NoteError Record :=
  match planAppend tree line (note.getD book.root) with
  | .error e => (tree, .error e)
  | .ok edit =>
    match writeNote tree edit.note edit.text with
    | (tree, .error e) => (tree, .error e)
    | (tree, .ok ()) => (tree, book.recordOf tree edit.note edit.number line)

/-- The notes that were passed over before a step on the way failed, and what was wrong with each.
-/
def skipped {α : Type} (step : Path → Reading → Except NoteError α) :
    List (Path × Reading) → List (Path × Utf8.Fault)
  | [] => []
  | (note, .undecodable e) :: rest => (note, e.fault) :: skipped step rest
  | (note, reading) :: rest =>
    match step note reading with
    | .ok _ => skipped step rest
    | .error _ => []

end Notebook

end Checklist
