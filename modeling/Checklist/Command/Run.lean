import Checklist.Command.Basic
import Checklist.Log
import Checklist.Notes.Source
import Checklist.Query.Compile
import Checklist.Query.Sort
import Checklist.Settings
import Checklist.Summary
import Checklist.Text.Disguise

/-!
# Running commands — from the words of a command line to what comes of them

A run reads and changes a file tree, writes to standard output and to the log, and ends in one of
four ways. It is a value throughout: `Command.run` gives the outcome, and the outer layer shows it.

The words of the user may hold surrogates. Standard output takes none, so printing one ends a run;
on standard error and in the log they are shown as escapes.
-/

namespace Checklist

/-- How a run ends. -/
inductive Ending where
  | success
  /-- With a message for the user. -/
  | failure (message : Text)
  | usage (error : UsageError)
  /-- For a reason that the command does not know about. -/
  | crash (message : Text)
  deriving DecidableEq

/-- The exit code of an ending. -/
def Ending.exitCode : Ending → Nat
  | .success => 0
  | .failure _ | .crash _ => 1
  | .usage _ => 2

/-- What a run can see besides the files. -/
structure Session where
  words : List RawText
  /-- Standard input. -/
  input : Bytes
  today : Date

/-- What a run has done so far. -/
structure Progress where
  tree : FileTree
  entries : List Log.Entry := []
  stdout : Text := []

/-- What came of a run. -/
structure Outcome where
  ending : Ending
  tree : FileTree
  stdout : Text
  /-- The records of the log, whatever their level. -/
  entries : List Log.Entry
  threshold : Int

/-- The text without the sequences that set colours on a terminal: escape, bracket, digits and
separators, letter. -/
def stripColours : Text → Text
  | [] => []
  | '\x1b' :: '[' :: s =>
    match s.dropWhile fun c => c = ';' || c = '?' || ('0' ≤ c && c ≤ '9') with
    | c :: _ =>
      if c.isAlpha then skip (s.takeWhile (!·.isAlpha)).length s
      else '\x1b' :: '[' :: stripColours s
    | [] => '\x1b' :: '[' :: stripColours s
  | c :: s => c :: stripColours s
where
  /-- Leave out so many characters and one more. -/
  skip : Nat → Text → Text
    | _, [] => []
    | 0, _ :: s => stripColours s
    | n + 1, _ :: s => skip n s

namespace Outcome

/-- What is told about the ending on standard error. -/
def complaint (o : Outcome) : Text :=
  match o.ending with
  | .success => []
  | .failure message => stripColours ("Error: ".toList ++ message) ++ ['\n']
  | .usage error => "Usage error: ".toList ++ error.message ++ ['\n']
  | .crash _ => []

/-- What is written to standard error, where the log shows this time. -/
def stderr (o : Outcome) (time : Text) : Text :=
  Log.render time o.threshold o.entries ++ o.complaint

end Outcome

/-- The path of the settings to use. -/
def GlobalOptions.settingsPath (options : GlobalOptions) (home : Location) : Path :=
  options.config.getD (Settings.defaultPath home)

/-- A run that may end before it gives its result. -/
abbrev Run := ExceptT Ending (StateM Progress)

namespace Command

/-- Write records to the log. -/
def log (entries : List Log.Entry) : Run Unit :=
  modify fun p => { p with entries := p.entries ++ entries }

/-- Write to standard output. -/
def print (text : Text) : Run Unit :=
  modify fun p => { p with stdout := p.stdout ++ stripColours text }

/-- Write a line to standard output. -/
def printLine (text : Text) : Run Unit := print (text ++ ['\n'])

/-- Write a line to standard output that must be a text. -/
def printRaw (line : RawText) : Run Unit :=
  match line.asText with
  | .ok text => printLine text
  | .error e => throw (.crash e.message)

/-- End with a message. -/
def fail {α : Type} (message : RawText) : Run α := throw (.failure message.escaped)

/-- Whether the commands are ready for the error, and end with its message. -/
def isExpected : NoteError → Bool
  | .unknownHome | .unknownRecord _ | .stamp .secondsOverflow => false
  | _ => true

/-- Go on with the result of an operation on notes. -/
def orFail {α : Type} (result : Except NoteError α) : Run α :=
  match result with
  | .ok value => pure value
  | .error e => if isExpected e then fail e.message else throw (.crash e.message.escaped)

/-- Go on with the result of an operation on files. -/
def orFailFile {α : Type} (result : Except FileError α) : Run α := orFail (result.mapError .file)

/-! ## What the log tells -/

/-- A record about the dates that were dropped from a line. -/
def droppedEntries (line : Text) : List Log.Entry :=
  match Item.ofLine? line with
  | none => []
  | some item => (droppedDates item.content).map fun (kind, written) =>
    ⟨"taskdown.tasks.codec".toList, Log.debug,
      "Dropping invalid ".toList ++ kind.name ++ " date ".toList ++ Text.quoted written⟩

/-- The logger of notebooks. -/
def notebookLogger : Text := "taskdown.sources.markdown".toList

/-- A record about each note that was passed over on the way of such steps. -/
def skippedEntries {α : Type} (step : Path → Reading → Except NoteError α)
    (readings : List (Path × Reading)) : List Log.Entry :=
  (Notebook.skipped step readings).map fun (note, fault) =>
    ⟨notebookLogger, Log.warning, "Skipping ".toList ++ note.toRaw.escaped ++
      ": not valid UTF-8 (".toList ++ fault.message ++ [')']⟩

/-- A record about each directive of a query in disguise that is of no use. -/
def ignoredEntries (disguise : Disguise) (query : Text) (today : Date) : List Log.Entry :=
  (ignoredDirectives query today).map fun (k, value) =>
    ⟨"taskdown.query.parser".toList, Log.debug, "Ignoring ".toList ++ k.name ++
      " directive with value ".toList ++ (disguise.reveal value).quoted⟩

/-- A record about the tasks that are left after each filter. -/
def filterEntries (tasks : List Task) (spec : Spec) : List Log.Entry :=
  (filterCounts tasks spec).map fun (name, count) =>
    ⟨"taskdown.query.engine".toList, Log.debug,
      Text.decimal count ++ " tasks left after ".toList ++ name ++ " filter".toList⟩

/-- A record about a line that was written to a note. -/
def writtenEntry (verb preposition : String) (path : RawText) (edit : Notebook.Edit) : Log.Entry :=
  ⟨notebookLogger, Log.info,
    verb.toList ++ " line ".toList ++ Text.decimal edit.number ++ [' '] ++ preposition.toList
      ++ [' '] ++ path.escaped⟩

/-- A record about the line that is appended to a note, when it is written. -/
def appendedEntries (book : Notebook) (tree : FileTree) (edit : Notebook.Edit) : List Log.Entry :=
  match Notebook.writeNote tree edit.note edit.text with
  | (tree, .ok ()) => [writtenEntry "Appended" "to" (book.relative tree edit.note) edit]
  | _ => []

/-! ## The commands -/

/-- The place that is given, or else the one that is set. -/
def chosenPlace? (settings : Settings) (place : Option RawText) : Option Json :=
  ((place.map Json.string).filter Json.isGiven).or ((some settings.notesPath).filter Json.isGiven)

/-- The text of standard input. -/
def readInput (session : Session) : Run Text :=
  orFail (((Utf8.decode session.input).map Text.unifyNewlines).mapError .undecodable)

/-- The text of standard input, where the place asks for it. -/
def inputAt (session : Session) (place : RawText) : Run Text :=
  if place = Source.standardInputPlace then readInput session else pure []

/-- The source at a place. -/
def sourceAt (session : Session) (place : RawText) : Run Source := do
  let input ← inputAt session place
  let p ← get
  orFail (Source.detect p.tree place input)

/-- End as a value of the settings is no text. -/
def refuseSetting {α : Type} (value : Json) : Run α :=
  throw (.crash ("not a text: ".toList ++ value.shown))

/-- The source at a place, or at the place that is set. -/
def openSource (session : Session) (settings : Settings) (place : Option RawText) : Run Source :=
  match chosenPlace? settings place with
  | none => throw (.usage .noPlace)
  | some (.string place) => sourceAt session place
  | some value => refuseSetting value

/-- The query that is given, or else the one that is set. -/
def chosenQuery (settings : Settings) (query : Option RawText) : Run RawText :=
  match query, settings.defaultQuery with
  | some query, _ => pure query
  | none, .string query => pure query
  | none, value => refuseSetting value

/-- Tell the log which notes of a source are passed over. -/
def logSkipped (source : Source) : Run Unit := do
  let p ← get
  match source with
  | .text _ => pure ()
  | .notebook book => log (skippedEntries (book.recordsIn p.tree) (book.readings p.tree))

/-- The tasks of a source. -/
def loadTasks (source : Source) (codec : Codec) : Run (List Task) := do
  logSkipped source
  let p ← get
  let records ← orFail (source.records p.tree)
  log (records.flatMap fun r => droppedEntries r.line)
  pure (codec.parseRecords records)

/-- The texts of a task that a query is compared with. -/
def searchedText (t : Task) : Text := t.description ++ t.tags.flatten ++ t.path.getD []

/-- The tasks that answer a query. -/
def answer (session : Session) (tasks : List Task) (query : RawText) : Run (List Task) := do
  -- No task has a surrogate, so those of the query go by characters that no task has.
  let disguise := Disguise.of query (tasks.flatMap searchedText)
  let text := disguise.hide query
  log (ignoredEntries disguise text session.today)
  match compileQuery text session.today with
  | .error e => throw (.crash e.message)
  | .ok spec =>
    log (filterEntries tasks spec)
    pure (applyQuery tasks spec)

/-- The line that shows a task: its path, its source line and its id. -/
def taskLine (t : Task) : Text :=
  let path := match t.path with
    | some (c :: s) => c :: s ++ [':', ' ']
    | _ => []
  path ++ Text.trim t.sourceText ++ [' ', ' ', '['] ++ t.id ++ [']']

/-- Print tasks. -/
def printTasks (tasks : List Task) (asJson : Bool) : Run Unit :=
  if asJson then printLine (Json.array (tasks.map Task.toJson)).pretty
  else if tasks.isEmpty then printLine "No tasks found.".toList
  else tasks.forM fun t => printLine (taskLine t)

/-- The lines that show a summary. -/
def summaryLines (s : Summary) : List Text :=
  let line (title : String) (n : Int) : Text := title.toList ++ Text.signedDecimal n
  [line "Total: " s.total, line "  todo: " s.todo, line "  in progress: " s.inProgress,
    line "  done: " s.completed, line "  cancelled: " s.cancelled, line "Overdue: " s.overdue,
    line "Completion: " s.completionRate ++ ['%']]

/-- Print the task that a line writes. -/
def runParse (codec : Codec) (line id : RawText) : Run Unit := do
  let disguise := Disguise.of (line ++ id) []
  let text := disguise.hide line
  log (droppedEntries text)
  match codec.parse text (disguise.hide id) {} with
  | none => fail (.ofText "not a checklist item".toList)
  | some t => printRaw (disguise.reveal t.toJson.pretty)

/-- Records about the notes that are passed over on the way to the line of a task, and about the one
that is written. -/
def savingEntries (book : Notebook) (tree : FileTree) (id line : RawText) : List Log.Entry :=
  let readings := book.readings tree
  let passed (readings : List (Path × Reading)) : List Log.Entry :=
    skippedEntries (book.editIn tree id line) readings
  match book.planReplace tree id line with
  | .ok edit => passed (readings.takeWhile (·.1 ≠ edit.note)) ++
      [writtenEntry "Rewrote" "of" (book.relative tree edit.note) edit]
  | .error _ => passed readings

/-- Tell the log what becomes of the notes when a task is written over its line. -/
def logSaving (source : Source) (codec : Codec) (t : Task) : Run Unit := do
  let p ← get
  match source with
  | .text _ => pure ()
  | .notebook book => log (savingEntries book p.tree (.ofText t.id) (.ofText (codec.format t)))

/-- Write a task over its line. -/
def saveTask (source : Source) (codec : Codec) (t : Task) : Run Source := do
  logSaving source codec t
  let p ← get
  let (tree, result) := source.saveTask p.tree codec t
  modify fun p => { p with tree }
  let (_, source) ← orFail result
  pure source

/-- Move a task to a status and write its line anew. -/
def runSetStatus (session : Session) (settings : Settings) (codec : Codec) (place id : RawText)
    (status : Status) : Run Unit := do
  let source ← openSource session settings (some place)
  let tasks ← loadTasks source codec
  match tasks.find? (RawText.ofText ·.id = id) with
  | none => fail (.ofText "task '".toList ++ id ++ .ofText "' not found".toList)
  | some t =>
    let t := t.setStatus codec none status
    match ← saveTask source codec t with
    | .text store => print store.text
    | .notebook _ => printLine t.sourceText

/-- Make sure that there is something at the path of a note. -/
def ensureNote (note : Path) : Run Unit := do
  let p ← get
  let (tree, result) := p.tree.ensureFile note
  modify fun p => { p with tree }
  orFailFile result

/-- Append a line to a note that is there. -/
def appendTo (note : Path) (line : RawText) : Run Unit := do
  let p ← get
  let book ← orFail (Notebook.open? p.tree note)
  let edit ← orFail (Notebook.planAppend p.tree line note)
  log (appendedEntries book p.tree edit)
  let (tree, result) := book.appendLine p.tree line none
  modify fun p => { p with tree }
  let r ← orFail result
  printLine ("Added [".toList ++ r.id ++ "]: ".toList ++ r.line)

/-- A tag that may hold surrogates, with the signs of the style. -/
def rawTag (style : TagStyle) (tag : RawText) : RawText :=
  match style with
  | .wrapped => .char Marker.tag :: tag ++ [.char Marker.tag]
  | .bare => .char Marker.tag :: tag

/-- The line of a new task whose description and tags may hold surrogates: it is put together
without a look at what they say. -/
def newLine (style : TagStyle) (description : RawText) (priority : Priority) (due : Option Date)
    (tags : List RawText) : RawText :=
  Text.joinWith [.char ' '] (
    [RawText.ofText ['-', ' ', '[', Status.todo.mark, ']']] ++
    priority.marker?.toList.map (fun sign => [.char sign]) ++
    [if description.isEmpty then .ofText newDescription else description] ++
    (markedText DateKind.due.marker (due.map Date.iso)).map RawText.ofText ++
    tags.map (rawTag style))

/-- Append a new task to a note. -/
def runAdd (note : Path) (line : RawText) : Run Unit := do
  ensureNote note
  appendTo note line

/-- Run a command under the settings. -/
def execute (session : Session) (settings : Settings) : Command → Run Unit
  | .parse line id => runParse ⟨settings.tagStyle, session.today⟩ line id
  | .query place text asJson => do
    let source ← openSource session settings place
    let tasks ← loadTasks source ⟨settings.tagStyle, session.today⟩
    let query ← chosenQuery settings text
    let tasks ← answer session tasks query
    printTasks tasks asJson
  | .stats place text => do
    let source ← openSource session settings place
    let tasks ← loadTasks source ⟨settings.tagStyle, session.today⟩
    let tasks ← match text with
      -- an empty query is no query: all tasks are counted
      | some (c :: s) => answer session tasks (c :: s)
      | _ => pure tasks
    (summaryLines (summarize tasks session.today)).forM printLine
  | .tags place => do
    let source ← openSource session settings place
    let tasks ← loadTasks source ⟨settings.tagStyle, session.today⟩
    let found := allTags tasks
    if found.isEmpty then printLine "No tags found.".toList else found.forM printLine
  | .setStatus place id status =>
    runSetStatus session settings ⟨settings.tagStyle, session.today⟩ place id status
  | .add note description priority due labels =>
    runAdd note (newLine settings.tagStyle description priority due labels)

/-- Settle what holds for every command: the settings, with the tag style of the options. -/
def prepare (options : GlobalOptions) : Run Settings := do
  let p ← get
  match Settings.load p.tree (options.settingsPath p.tree.home) with
  | .error (.beyondLimit e) => throw (.crash e.message)
  | .error e => fail e.message
  | .ok settings => pure { settings with tagStyle := options.tagStyle.getD settings.tagStyle }

/-- Go on with what the words say. -/
def orUsage {α : Type} (result : Except UsageError α) : Run α :=
  match result with
  | .ok value => pure value
  | .error e => throw (.usage e)

/-- Run the command that is read from the words behind its name. -/
def runNamed (session : Session) (options : GlobalOptions)
    (reader : List RawText → Except UsageError Command) (words : List RawText) : Run Unit := do
  let settings ← prepare options
  let command ← orUsage (reader words)
  execute session settings command

/-- What comes of a run that starts with this file tree. -/
def outcome (threshold : Int) (tree : FileTree) (run : Run Unit) : Outcome :=
  let (result, p) := run.run { tree }
  let ending := match result with
    | .ok () => .success
    | .error ending => ending
  ⟨ending, p.tree, p.stdout, p.entries, threshold⟩

/-- What comes of the words of a command line. -/
def run (session : Session) (tree : FileTree) : Outcome :=
  let refuse (e : UsageError) : Outcome := outcome Log.warning tree (throw (.usage e))
  match readGlobal session.words with
  | .error e => refuse e
  | .ok (options, name, words) =>
    match reader? name, Verbosity.ofSwitches options.verbose options.quiet with
    | none, _ => refuse (.unknownCommand name)
    | _, none => refuse .verbosityConflict
    | some reader, some verbosity =>
      outcome verbosity.threshold tree (runNamed session options reader words)

end Command

end Checklist
