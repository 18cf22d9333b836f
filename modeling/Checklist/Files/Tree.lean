import Checklist.Calendar.Moment
import Checklist.Files.Path

/-!
# File trees — files and directories as a value

A `FileTree` holds directories and files and knows the working directory and the home directory.
Reading looks a path up; writing gives a new tree. What goes wrong is told with the path that was
asked for, in the words of the operating system.
-/

namespace Checklist

/-- A file: its contents, and when they and the file were last changed, in seconds since 1970. -/
structure File where
  bytes : Bytes
  modified : Rat
  changed : Rat
  deriving DecidableEq

/-- What can be found at a location. -/
inductive Node where
  | directory
  | file (file : File)
  deriving DecidableEq

/-- What can be wrong with a path. -/
inductive FileFault where
  | missing
  | exists
  | notDirectory
  | isDirectory
  | nameTooLong
  | nullByte
  /-- There are surrogates in the path that stand for no bytes. -/
  | unencodable (error : EncodeError)
  deriving DecidableEq

/-- A fault and the path it was met at. -/
structure FileError where
  fault : FileFault
  path : Path
  deriving DecidableEq

/-- The number and the words of the operating system for a fault that it has met; the last two are
met before it is asked. -/
def FileFault.wording : FileFault → Text
  | .missing => "[Errno 2] No such file or directory".toList
  | .exists => "[Errno 17] File exists".toList
  | .notDirectory => "[Errno 20] Not a directory".toList
  | .isDirectory => "[Errno 21] Is a directory".toList
  | .nameTooLong => "[Errno 36] File name too long".toList
  | .nullByte => "embedded null byte".toList
  | .unencodable error => error.message

/-- The wording of the error. -/
def FileError.message (e : FileError) : Text :=
  match e.fault with
  | .nullByte | .unencodable _ => e.fault.wording
  | fault => fault.wording ++ ": ".toList ++ e.path.toRaw.quoted

/-- A time that a clock can show: one of the calendar, which has a text. -/
structure Clock where
  /-- The seconds since 1970. -/
  seconds : Rat
  text : Text
  iso_eq : isoOfStamp seconds = .ok text

/-- The clock at so many seconds after the start of 1970, if that is in the calendar. -/
def Clock.ofSeconds? (seconds : Rat) : Option Clock :=
  match h : isoOfStamp seconds with
  | .ok text => some ⟨seconds, text, h⟩
  | .error _ => none

/-- The clock at the start of 1970. -/
def Clock.epoch : Clock := ⟨0, "1970-01-01T00:00:00+00:00".toList, by rfl⟩

/-- Files and directories. -/
structure FileTree where
  /-- The directories, apart from the root. -/
  directories : List Location := []
  files : List (Location × File) := []
  /-- The time at which files are written. -/
  clock : Clock := .epoch
  /-- The working directory. -/
  here : Location := []
  /-- The directory of the user. -/
  home : Location := []

namespace FileTree

/-- What is at the location. -/
def nodeAt (tree : FileTree) (location : Location) : Option Node :=
  match tree.files.lookup location with
  | some file => some (.file file)
  | none =>
    if location = [] ∨ tree.directories.contains location then some .directory else none

/-- The most bytes that a name may take. -/
def nameLimit : Nat := 255

/-- The most bytes that a path may take as a whole. -/
def pathLimit : Nat := 4095

/-- The name that leads up, which no file or directory has. -/
def upName : Bytes := Utf8.encode ['.', '.']

/-- The location that the names lead to from a directory. All names but the last must be those of
directories; whether there is anything at the location itself does not matter, so a file or
directory can be put there. -/
def walk (tree : FileTree) (here : Location) : List Bytes → Except FileFault Location
  | [] => .ok here
  | name :: names =>
    match tree.nodeAt here with
    | none => .error .missing
    | some (.file _) => .error .notDirectory
    | some .directory =>
      if nameLimit < name.length then .error .nameTooLong
      else if name = upName then tree.walk here.dropLast names
      else tree.walk (here ++ [name]) names

/-- Where the path begins. -/
def origin (tree : FileTree) (path : Path) : Location :=
  if path.isAbsolute then [] else tree.here

/-- The location that the path leads to. -/
def locate (tree : FileTree) (path : Path) : Except FileFault Location :=
  match path.fault? with
  | some error => .error (.unencodable error)
  | none =>
    if path.hasNull then .error .nullByte
    else if pathLimit < path.toRaw.nameBytes.length then .error .nameTooLong
    else tree.walk (tree.origin path) path.diskNames

/-- What the path leads to. -/
def node? (tree : FileTree) (path : Path) : Option Node :=
  match tree.locate path with
  | .ok location => tree.nodeAt location
  | .error _ => none

/-- What the path leads to, where a name that is too long is an error and not just nothing. -/
def probe (tree : FileTree) (path : Path) : Except FileError (Option Node) :=
  match tree.locate path with
  | .ok location => .ok (tree.nodeAt location)
  | .error .nameTooLong => .error ⟨.nameTooLong, path⟩
  | .error _ => .ok none

/-- Whether the path leads to a directory. -/
def isDirectory (tree : FileTree) (path : Path) : Bool := tree.node? path = some .directory

/-- Whether the path leads to a file. -/
def isFile (tree : FileTree) (path : Path) : Bool :=
  match tree.node? path with
  | some (.file _) => true
  | _ => false

/-- The file that the path leads to. -/
def readFile (tree : FileTree) (path : Path) : Except FileError File :=
  match tree.locate path with
  | .error fault => .error ⟨fault, path⟩
  | .ok location =>
    match tree.nodeAt location with
    | some (.file file) => .ok file
    | some .directory => .error ⟨.isDirectory, path⟩
    | none => .error ⟨.missing, path⟩

/-- The list with this file at the location, in the place of the one that is there or at the end. -/
def putFile (location : Location) (file : File) :
    List (Location × File) → List (Location × File)
  | [] => [(location, file)]
  | entry :: rest =>
    if entry.1 = location then (location, file) :: rest else entry :: putFile location file rest

/-- A file with these bytes that is written now. -/
def written (tree : FileTree) (bytes : Bytes) : File :=
  ⟨bytes, tree.clock.seconds, tree.clock.seconds⟩

/-- The tree with these bytes in the file that the path leads to. -/
def writeFile (tree : FileTree) (path : Path) (bytes : Bytes) : Except FileError FileTree :=
  match tree.locate path with
  | .error fault => .error ⟨fault, path⟩
  | .ok location =>
    if tree.nodeAt location = some .directory then .error ⟨.isDirectory, path⟩
    else .ok { tree with files := putFile location (tree.written bytes) tree.files }

/-- The tree with the new directory that the path leads to. -/
def makeDirectory (tree : FileTree) (path : Path) : Except FileError FileTree :=
  match tree.locate path with
  | .error fault => .error ⟨fault, path⟩
  | .ok location =>
    if (tree.nodeAt location).isSome then .error ⟨.exists, path⟩
    else .ok { tree with directories := tree.directories ++ [location] }

/-- The tree with the directory that the path leads to, and all that are missing above it; one that
is there already is kept. When this fails half way, the tree has the directories that were made. -/
def makeDirectories (tree : FileTree) (path : Path) : FileTree × Except FileError Unit :=
  go path.names.length tree path
where
  /-- Make the directory at the end of a path of at most `depth` names. -/
  go : (depth : Nat) → FileTree → Path → FileTree × Except FileError Unit
  | 0, tree, path => settle tree path (tree.makeDirectory path)
  | depth + 1, tree, path =>
    match tree.makeDirectory path with
    | .error ⟨.missing, _⟩ =>
      match go depth tree path.parent with
      | (tree, .ok ()) => settle tree path (tree.makeDirectory path)
      | failed => failed
    | result => settle tree path result
  /-- An error does not matter where the directory is there all the same. -/
  settle (tree : FileTree) (path : Path) :
      Except FileError FileTree → FileTree × Except FileError Unit
  | .ok tree => (tree, .ok ())
  | .error e => (tree, if tree.isDirectory path then .ok () else .error e)

/-- The tree with a file that the path leads to, empty if there was nothing. -/
def touch (tree : FileTree) (path : Path) : Except FileError FileTree :=
  if (tree.node? path).isSome then .ok tree else tree.writeFile path []

/-- Make sure that there is something at the path: where there is nothing, the directories above it
are made and an empty file. What was made stays when this fails half way. -/
def ensureFile (tree : FileTree) (path : Path) : FileTree × Except FileError Unit :=
  match tree.probe path with
  | .error e => (tree, .error e)
  | .ok (some _) => (tree, .ok ())
  | .ok none =>
    match tree.makeDirectories path.parent with
    | (tree, .error e) => (tree, .error e)
    | (tree, .ok ()) =>
      match tree.touch path with
      | .ok tree => (tree, .ok ())
      | .error e => (tree, .error e)

/-- The tree with all directories down to the location. -/
def withDirectory (tree : FileTree) (location : Location) : FileTree :=
  (tree.makeDirectories (.ofLocation location)).1

/-- The tree with the file at the location. -/
def withFile (tree : FileTree) (location : Location) (file : File) : FileTree :=
  { tree with files := putFile location file tree.files }

/-- The tree that holds nothing but its working directory and the home directory. -/
def start (here home : Location) (clock : Clock) : FileTree :=
  (({ clock, here, home } : FileTree).withDirectory here).withDirectory home

/-- The directories that are in the second tree alone. -/
def newDirectories (before after : FileTree) : List Location :=
  after.directories.filter (!before.directories.contains ·)

/-- The files that are in the second tree alone or were written anew there. -/
def newFiles (before after : FileTree) : List (Location × File) :=
  after.files.filter fun (location, file) => before.files.lookup location ≠ some file

/-- Everything below a directory, by the names that lead from there. -/
def below (tree : FileTree) (base : Location) : List (List Bytes) :=
  ((tree.files.map Prod.fst) ++ tree.directories).filterMap fun location =>
    if base.isPrefixOf location ∧ location ≠ base then some (location.drop base.length) else none

end FileTree

end Checklist
