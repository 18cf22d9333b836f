import Checklist.Command.Run

/-!
# Needs — what a run will look at

A run takes the files it works on from a tree. Before it starts, its words tell which paths have to
be in that tree: the file of settings, and the place of the notes, which the settings may name. So
the paths are asked for twice, with a tree that is empty and with one that holds the settings.
-/

namespace Checklist.Command

/-- The place of the notes that a command reads. -/
def place? (settings : Settings) : Command → Option RawText
  | .query place .. | .stats place _ | .tags place => chosen place
  | .setStatus place .. => chosen (some place)
  | .parse .. | .add .. => none
where
  /-- The place that is given or set, if it is a string. -/
  chosen (place : Option RawText) : Option RawText :=
    match chosenPlace? settings place with
    | some (.string place) => some place
    | _ => none

/-- The path of the notes that a command reads or writes. -/
def notesPath? (settings : Settings) (home : Location) : Command → Option Path
  | .add note .. => some note
  | command => (command.place? settings).bind fun place => (Path.ofRaw place).expandHome home

/-- The command that the words behind its name ask for, and the settings it runs under. -/
def planned? (tree : FileTree) (options : GlobalOptions) (name : RawText) (words : List RawText) :
    Option (Settings × Command) := do
  let settings ← (Settings.load tree (options.settingsPath tree.home)).toOption
  let reader ← reader? name
  let command ← (reader words).toOption
  some (settings, command)

/-- The paths that a run looks at, as far as the tree tells. -/
def neededPaths (tree : FileTree) (words : List RawText) : List Path :=
  match readGlobal words with
  | .error _ => []
  | .ok (options, name, words) =>
    let notes := (planned? tree options name words).bind fun (settings, command) =>
      command.notesPath? settings tree.home
    options.settingsPath tree.home :: notes.toList

/-- Whether a run reads standard input. -/
def needsInput (tree : FileTree) (words : List RawText) : Bool :=
  match readGlobal words with
  | .error _ => false
  | .ok (options, name, words) =>
    (planned? tree options name words).any fun (settings, command) =>
      command.place? settings = some Source.standardInputPlace

end Checklist.Command
