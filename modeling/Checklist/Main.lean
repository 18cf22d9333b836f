import Checklist.Command.Needs
import Std.Time

/-!
# The program — a run of a command on the disk

The program shows a command what the disk holds where it looks, and puts what the command changed
back on the disk. It meets the names of files and the words of the user as strings.
-/

namespace Checklist.Program

/-- The names in the text of an absolute path. -/
def locationOf (path : String) : Location := (Path.ofText path.toList).diskNames

/-- The text of a location. -/
def diskPath (location : Location) : String :=
  String.ofList (Path.ofLocation location).toRaw.escaped

/-- What a stream gives until its end, behind what was read before. -/
partial def readAll (stream : IO.FS.Stream) (before : ByteArray) : IO ByteArray := do
  let more ← stream.read 65536
  if more.isEmpty then return before
  readAll stream (before ++ more)

/-- The seconds since 1970 at a time. -/
def secondsAt (time : IO.FS.SystemTime) : Rat :=
  time.sec + (time.nsec.toNat : Rat) / 1000000000

/-- What kind of thing is at the location, and when it was changed. -/
def metadata? (location : Location) : IO (Option IO.FS.Metadata) := do
  try
    let path ← IO.FS.realPath (diskPath location)
    return some (← path.metadata)
  catch _ => return none

/-- The tree with the file at the location. -/
def addFile (tree : FileTree) (location : Location) (data : IO.FS.Metadata) : IO FileTree := do
  let bytes ← IO.FS.readBinFile (diskPath location)
  let time := secondsAt data.modified
  return tree.withFile location ⟨bytes.toList, time, time⟩

/-- The tree with all directories and notes below the location. -/
partial def addBelow (tree : FileTree) (location : Location) : IO FileTree := do
  let mut tree := tree
  for entry in ← (← IO.FS.realPath (diskPath location)).readDir do
    let name := RawText.ofText entry.fileName.toList
    let next := location ++ [name.nameBytes]
    match ← metadata? next with
    | none => pure ()
    | some data =>
      if data.type == .dir then tree ← addBelow (tree.withDirectory next) next
      else if Path.hasNoteEnding name then tree ← addFile tree next data
  return tree

/-- The tree with what the names lead to from the location, and with everything on the way. -/
def addAlong (tree : FileTree) (location : Location) : List Bytes → IO FileTree
  | [] => addBelow tree location
  | name :: names => do
    let next := if name = FileTree.upName then location.dropLast else location ++ [name]
    match ← metadata? next with
    | none => return tree
    | some data =>
      if data.type == .dir then addAlong (tree.withDirectory next) next names
      else addFile tree next data

/-- The tree with what the paths lead to. -/
def addPaths (tree : FileTree) (paths : List Path) : IO FileTree :=
  paths.foldlM (fun tree path =>
    addAlong tree (if path.isAbsolute then [] else tree.here) path.diskNames) tree

/-- Put what is new in the second tree on the disk. -/
def save (before after : FileTree) : IO Unit := do
  for location in before.newDirectories after do
    IO.FS.createDirAll (diskPath location)
  for (location, file) in before.newFiles after do
    IO.FS.writeBinFile (diskPath location) ⟨file.bytes.toArray⟩

/-- Run the words, and give the exit code. -/
def run (words : List RawText) : IO UInt32 := do
  let here := locationOf (← IO.currentDir).toString
  let home := locationOf ((← IO.getEnv "HOME").getD "/")
  let now ← Std.Time.PlainDateTime.now
  let clock ← Std.Time.Timestamp.now
  let date := now.date
  let today := Date.of? date.year.toInt.toNat date.month.toNat date.day.toNat
  let clock := (Clock.ofSeconds? clock.toSecondsSinceUnixEpoch.val).getD .epoch
  let bare := FileTree.start here home clock
  let tree ← addPaths bare (Command.neededPaths bare words)
  let tree ← addPaths tree (Command.neededPaths tree words)
  let input ← if Command.needsInput tree words then readAll (← IO.getStdin) .empty else pure .empty
  let outcome := Command.run ⟨words, input.toList, today.getD Date.first⟩ tree
  save tree outcome.tree
  IO.print (String.ofList outcome.stdout)
  IO.eprint (String.ofList (outcome.stderr (now.format "uuuu-MM-dd HH:mm:ss").toList))
  if let .crash message := outcome.ending then IO.eprintln (String.ofList message)
  return outcome.ending.exitCode.toUInt32

end Checklist.Program

/-- Run a command, and tell what went wrong with the disk. -/
def main (args : List String) : IO UInt32 := do
  try
    Checklist.Program.run (args.map fun word => .ofText word.toList)
  catch e =>
    IO.eprintln (toString e)
    return 1
