import Checklist.Task.Document
import Checklist.Json.Reader
import Checklist.Json.Writer
import Checklist.Notes.Notebook

/-!
# Settings — what the user has set once

Settings are kept in a JSON file below the home directory. A file that is not there stands for the
defaults; one that is there must be readable. Of its values the tag style is checked at once; the
others are kept as they are, and whether they are of use shows when they are used.
-/

namespace Checklist

/-- What applies when the command line says nothing else. -/
structure Settings where
  tagStyle : TagStyle := .wrapped
  /-- Where the notes are when no place is given. -/
  notesPath : Json := .null
  /-- What is asked when no query is given. -/
  defaultQuery : Json := .text []

/-- Why settings cannot be used. -/
inductive SettingsError where
  | unknownTagStyle (value : Json)
  /-- The file is no JSON document in UTF-8. -/
  | unreadable (path : Path)
  | notAnObject (path : Path)
  /-- The document is longer or deeper than is read. -/
  | beyondLimit (error : Json.ReadError)
  | file (error : FileError)

/-- What is told about a file that is no JSON document. -/
def SettingsError.unreadableDetail : Text := "not a JSON document in UTF-8".toList

/-- The wording of the error. -/
def SettingsError.message : SettingsError → RawText
  | .unknownTagStyle value => .ofText ("Unknown tag_style: ".toList ++ value.shown)
  | .unreadable path => invalid path unreadableDetail
  | .notAnObject path => invalid path "expected an object".toList
  | .beyondLimit error => .ofText error.message
  | .file error => .ofText error.message
where
  /-- The wording of what is wrong with the file at a path. -/
  invalid (path : Path) (detail : Text) : RawText :=
    .ofText "Invalid settings file ".toList ++ path.toRaw ++ .ofText (": ".toList ++ detail)

namespace Settings

/-- Where the settings are kept, below the home directory, unless another file is named. -/
def defaultPath (home : Location) : Path :=
  (Path.ofLocation home).join
    [.ofText ".config".toList, .ofText "taskdown".toList, .ofText "settings.json".toList]

/-- The settings as an object. -/
def toJson (s : Settings) : Json :=
  .record [
    ("tag_style".toList, .text s.tagStyle.name),
    ("notes_path".toList, s.notesPath),
    ("default_query".toList, s.defaultQuery)]

/-- The settings that an object describes; members that are not there have their defaults. -/
def ofJson (value : Json) : Except SettingsError Settings := do
  let style := (value.member? "tag_style".toList).getD (.text TagStyle.wrapped.name)
  let tagStyle ← match style.text?.bind TagStyle.ofName? with
    | some tagStyle => .ok tagStyle
    | none => .error (.unknownTagStyle style)
  .ok {
    tagStyle
    notesPath := (value.member? "notes_path".toList).getD .null
    defaultQuery := (value.member? "default_query".toList).getD (.text []) }

/-- The settings that a document at the path describes. -/
def ofDocument (path : Path) (text : Text) : Except SettingsError Settings :=
  match Json.read text with
  | .error .malformed => .error (.unreadable path)
  | .error e => .error (.beyondLimit e)
  | .ok (.object members) => ofJson (.object members)
  | .ok _ => .error (.notAnObject path)

/-- The settings in the file at the path. -/
def load (tree : FileTree) (path : Path) : Except SettingsError Settings :=
  match tree.probe path with
  | .error e => .error (.file e)
  | .ok none => .ok {}
  | .ok (some _) =>
    match tree.readFile path with
    | .error e => .error (.file e)
    | .ok file =>
      match Notebook.readText file with
      | .ok text => ofDocument path text
      | .error _ => .error (.unreadable path)

/-- The tree with the settings in the file at the path, and with the directories above it, which
stay when the file cannot be written. -/
def save (s : Settings) (tree : FileTree) (path : Path) : FileTree × Except FileError Unit :=
  match tree.makeDirectories path.parent with
  | (tree, .error e) => (tree, .error e)
  | (tree, .ok ()) =>
    match tree.writeFile path (Utf8.encode s.toJson.prettyAscii) with
    | .ok tree => (tree, .ok ())
    | .error e => (tree, .error e)

end Settings

end Checklist
