import Checklist.Proofs.AddingLines
import Checklist.Proofs.RunEndings
import Checklist.Proofs.VisitingNotes

/-!
# Effects of commands — what a run leaves of the files

Only two steps of a run write to files. Saving a task writes one file anew that is there, with a
text, so it is stopped before that or not at all (`ends_saveTask`). Adding one makes sure of the
note first (`ends_ensureNote`) and then appends the line, which is the user's own and need not be a
text (`ends_appendTo`). That is the one way in which a run that is stopped can have changed files
(`ends_runAdd`).

So a run that does not end well leaves all files as they were, and one that ends well does to them
what its command is for, exactly when the run does not spoil a note (`run_leaves_files_iff`).
-/

namespace Checklist

open Text

variable {α : Type}

namespace Command

open Run

/-- The word for a command. -/
def name : Command → Text
  | .parse .. => "parse".toList
  | .query .. => "query".toList
  | .stats .. => "stats".toList
  | .tags .. => "tags".toList
  | .setStatus .. => "set-status".toList
  | .add .. => "add".toList

/-- The words and the settings that they mean ask for this command under these settings. -/
def Asks (session : Session) (tree : FileTree) (settings : Settings) (command : Command) : Prop :=
  ∃ options own reader verbosity,
    readGlobal session.words = .ok (options, .ofText command.name, own) ∧
    reader? (.ofText command.name) = some reader ∧
    Verbosity.ofSwitches options.verbose options.quiet = some verbosity ∧
    Prepared options tree settings ∧ reader own = .ok command

/-- What a command that ends well does to the files. -/
def Leaves (settings : Settings) (before after : FileTree) : Command → Prop
  | .parse .. | .query .. | .stats .. | .tags .. => after = before
  | .setStatus .. => after = before ∨ before.RewritesOne after
  | .add note description priority due labels =>
    ∃ line target, newLine settings.tagStyle description priority due labels = .ofText line ∧
      before.AddsLine after note line target

/-- Whether the command fails when it has changed files. -/
def Spoils (settings : Settings) (tree : FileTree) : Command → Prop
  | .add note description priority due labels =>
    Notebook.SpoilsNote tree note (newLine settings.tagStyle description priority due labels)
  | _ => False

/-- Whether the run fails when it has changed files. -/
def SpoilsFiles (session : Session) (tree : FileTree) : Prop :=
  ∃ settings command, Asks session tree settings command ∧ command.Spoils settings tree

/-- A run that does not end well leaves every file with the bytes that it had, and makes none. One
that ends well runs the command that its words ask for, which does to the files what it is for. -/
structure LeavesFiles (session : Session) (tree : FileTree) : Prop where
  of_failed : (run session tree).ending.exitCode ≠ 0 → tree.SameBytes (run session tree).tree
  of_success : (run session tree).ending.exitCode = 0 →
    ∃ settings command, Asks session tree settings command ∧
      command.Leaves settings tree (run session tree).tree

/-! ## The line of a new task -/

/-- Texts are joined as raw texts. -/
theorem joinWith_map_ofText (sep : Text) (texts : List Text) :
    joinWith (RawText.ofText sep) (texts.map RawText.ofText) =
      RawText.ofText (joinWith sep texts) := by
  induction texts with
  | nil => rfl
  | cons t rest ih =>
      cases rest with
      | nil => rfl
      | cons u rest =>
          rw [List.map_cons, joinWith_cons (by simp), ih, joinWith_cons (List.cons_ne_nil u rest),
            RawText.ofText_append, RawText.ofText_append]

/-- A tag that is a text is written like one. -/
theorem rawTag_ofText (style : TagStyle) (tag : Text) :
    rawTag style (.ofText tag) = .ofText (Codec.formatTag style tag) := by
  cases style with
  | wrapped => exact (RawText.ofText_append (Marker.tag :: tag) [Marker.tag]).symm
  | bare => rfl

/-- The line of a new task whose description and tags are texts is the one that the task is written
as. -/
theorem newLine_ofText (codec : Codec) (description : Text) (priority : Priority)
    (due : Option Date) (labels : List Text) :
    newLine codec.style (.ofText description) priority due (labels.map RawText.ofText) =
      .ofText (Task.create codec none (placeholderId 0)
        { description, priority, tags := labels,
          dates := { due := due.map Date.iso } }).sourceText := by
  have hlabels : (labels.map RawText.ofText).map (rawTag codec.style) =
      (labels.map (Codec.formatTag codec.style)).map RawText.ofText := by
    simp only [List.map_map, Function.comp_def, rawTag_ofText]
  have hdescription : (if (RawText.ofText description).isEmpty then .ofText newDescription
      else .ofText description) =
      RawText.ofText (if description.isEmpty then newDescription else description) := by
    cases description <;> rfl
  have hpriority : priority.marker?.toList.map (fun sign => [RawChar.char sign]) =
      (priority.marker?.toList.map ([·])).map RawText.ofText := by
    rw [List.map_map]
    rfl
  show _ = RawText.ofText (joinWith [' '] (codec.parts _))
  rw [← joinWith_map_ofText, newLine, hlabels, hdescription, hpriority]
  simp [Codec.parts, Codec.recurrenceParts, TaskDates.get, markedText, RawText.ofText]

/-! ## Reading the words of a command -/

/-- What is read is the command of that name, if anything is. -/
def Names (name : Text) (result : Except UsageError Command) : Prop :=
  ∀ command, result = .ok command → command.name = name

/-- Where the words were refused, no command has a name. -/
theorem names_error (name : Text) (e : UsageError) : Names name (.error e) := nofun

/-- A command is named as it is. -/
theorem names_ok (command : Command) : Names command.name (.ok command) := by
  rintro _ ⟨⟩
  rfl

/-- What is read before the command does not change its name. -/
theorem names_bind {name : Text} {result : Except UsageError α}
    {f : α → Except UsageError Command} (hf : ∀ a, Names name (f a)) :
    Names name (result >>= f) := by
  cases result with
  | error e => exact names_error name e
  | ok a => exact hf a

/-- Every reader in the table makes the command that stands beside it. -/
theorem names_of_mem_readers {name : Text} {reader : List RawText → Except UsageError Command}
    (h : (name, reader) ∈ readers) (own : List RawText) : Names name (reader own) := by
  simp only [readers, List.mem_cons, Prod.mk.injEq, List.not_mem_nil, or_false] at h
  -- One reader after the other: each ends in an error or in the command of its own name.
  rcases h with ⟨rfl, rfl⟩ | ⟨rfl, rfl⟩ | ⟨rfl, rfl⟩ | ⟨rfl, rfl⟩ | ⟨rfl, rfl⟩ | ⟨rfl, rfl⟩
  · refine names_bind fun words => ?_
    split
    · exact names_error _ _
    · exact names_ok (.parse ..)
    · exact names_error _ _
  · exact names_bind fun words => names_bind fun place => names_ok (.query ..)
  · exact names_bind fun words => names_bind fun place => names_ok (.stats ..)
  · exact names_bind fun words => names_bind fun place => names_ok (.tags ..)
  · refine names_bind fun words => ?_
    split
    · exact names_error _ _
    · exact names_error _ _
    · exact names_error _ _
    · split
      · exact names_ok (.setStatus ..)
      · exact names_error _ _
    · exact names_error _ _
  · refine names_bind fun words => names_bind fun priority => names_bind fun due => ?_
    split
    · exact names_error _ _
    · exact names_error _ _
    · exact names_bind fun note => names_ok (.add ..)
    · exact names_error _ _

/-- The reader that goes by a name reads the command of that name. -/
theorem eq_name_of_reader? {name : RawText} {reader : List RawText → Except UsageError Command}
    (h : reader? name = some reader) {own : List RawText} {command : Command}
    (hcommand : reader own = .ok command) : name = .ofText command.name := by
  obtain ⟨text, htext, hlookup⟩ := Option.bind_eq_some_iff.mp h
  have hmem : (text, reader) ∈ readers := by
    obtain ⟨before, after, heq, -⟩ := List.lookup_eq_some_iff.mp hlookup
    rw [heq]
    exact List.mem_append_right before List.mem_cons_self
  rw [names_of_mem_readers hmem own command hcommand]
  exact RawText.toText?_eq_some_iff.mp htext

/-! ## Saving a task -/

/-- Saving a task writes one file at most, and none when it fails. -/
theorem rewritesOne_of_saveTask (source : Source) (codec : Codec) (t : Task) (before : FileTree) :
    match source.saveTask before codec t with
    | (after, .ok _) => after = before ∨ before.RewritesOne after
    | (after, .error _) => after = before := by
  unfold Source.saveTask Source.replaceLine
  cases source with
  | text store =>
      dsimp only
      cases store.replaceLine t.id (codec.format t) with
      | error e => rfl
      | ok store' => exact .inl rfl
  | notebook book =>
      dsimp only
      generalize hline : RawText.ofText (codec.format t) = line
      generalize hresult : book.replaceLine before (.ofText t.id) line = result
      have hreplaces : book.Replaces before (.ofText t.id) line result :=
        hresult ▸ Notebook.replaces_replaceLine book before (.ofText t.id) line
      cases hreplaces with
      | written hreaches hfirst htarget =>
          obtain ⟨old, hold⟩ := htarget.exists_file
          exact .inr ⟨_, old, _, hold, rfl⟩
      | emptied hreaches hfirst htarget hnone =>
          -- The line of a task is a text.
          exact absurd ⟨_, hline.symm⟩ hnone
      | failed => rfl
      | unnamed => rfl
      | missing => rfl

/-- Saving a task rewrites one note, or it leaves the tree alone. -/
theorem ends_saveTask (source : Source) (codec : Codec) (t : Task) (p : Progress) :
    (saveTask source codec t).Ends p
      (fun _ q => q.tree = p.tree ∨ p.tree.RewritesOne q.tree) fun q => q.tree = p.tree := by
  refine (ends_logSaving source codec t p).bind_of_never fun _ q hq => ?_
  rw [← hq]
  refine .get_bind ?_
  -- The tree is changed before the answer is looked at, so both answers tell of the same tree.
  have hsave := rewritesOne_of_saveTask source codec t q.tree
  cases hresult : source.saveTask q.tree codec t with
  | mk after result =>
      rw [hresult] at hsave
      refine (ends_modify _ q).bind_of_never ?_
      rintro - _ rfl
      cases result with
      | error e => exact ends_orFail_error_bind e _ hsave
      | ok saved => exact ends_orFail_ok_bind hsave

/-- A status is moved by saving a task, and behind that the run is not stopped. -/
theorem ends_runSetStatus (session : Session) (settings : Settings) (codec : Codec)
    (place id : RawText) (status : Status) (p : Progress) :
    (runSetStatus session settings codec place id status).Ends p
      (fun _ q => q.tree = p.tree ∨ p.tree.RewritesOne q.tree) fun q => q.tree = p.tree := by
  refine (keepsTree_openSource session settings (some place) p).bind (fun _ h => h) ?_
  intro source q hq
  rw [← hq]
  refine (keepsTree_loadTasks source codec q).bind (fun _ h => h) fun tasks r hr => ?_
  rw [← hr]
  split
  · exact (keepsTree_fail _ r).mono (fun _ _ h => .inl h) fun _ h => h
  · next t ht =>
      refine (ends_saveTask source codec _ r).bind (fun _ h => h) fun saved w hw => ?_
      cases saved with
      | text store => exact (ends_print _ w).mono (fun _ _ h => h ▸ hw) fun _ h => h.elim
      | notebook book => exact (ends_printLine _ w).mono (fun _ _ h => h ▸ hw) fun _ h => h.elim

/-! ## Adding a task -/

/-- Making a note is what the tree does for it. -/
theorem ends_ensureNote (note : Path) (p : Progress) :
    (ensureNote note).Ends p (fun _ q => p.tree.ensureFile note = (q.tree, .ok ()))
      fun q => ∃ e, p.tree.ensureFile note = (q.tree, .error e) := by
  refine .get_bind ?_
  cases hmade : p.tree.ensureFile note with
  | mk made result =>
      -- What was made is kept even when not all could be.
      refine (ends_modify _ p).bind_of_never ?_
      rintro - _ rfl
      refine (ends_orFailFile result _).mono ?_ ?_
      · rintro - q ⟨rfl, rfl⟩
        rfl
      · rintro q ⟨⟨e, rfl⟩, rfl⟩
        exact ⟨e, rfl⟩

/-- What an attempt to append a line leaves that is stopped: where the note does not read as a text
all is as it was, a line that is no text empties the note, and a name that is none is met when the
line is written. -/
inductive AppendStops (tree : FileTree) (note : Path) : (line : RawText) → FileTree → Prop where
  | unread {line : RawText} (hread : ∀ text, Notebook.read tree note ≠ .text text) :
      AppendStops tree note line tree
  | emptied {line : RawText} {target : Location} {text : Text}
      (hread : Notebook.read tree note = .text text) (hleads : tree.LeadsToFile note target)
      (hline : ¬line.IsText) : AppendStops tree note line (tree.withText target [])
  | unnamed {line : Text} {target : Location} {text : Text}
      (hread : Notebook.read tree note = .text text) (hleads : tree.LeadsToFile note target)
      (hname : ¬note.name.IsText) :
      AppendStops tree note (.ofText line)
        (tree.withText target (Notebook.longerText text line))

/-- Appending gives a result when the line and the name of the note are texts. -/
theorem ends_appendTo (note : Path) (line : RawText) (p : Progress) :
    (appendTo note line).Ends p
      (fun _ q => ∃ target text written, p.tree.LeadsToFile note target ∧
        Notebook.read p.tree note = .text text ∧ line = .ofText written ∧ note.name.IsText ∧
        q.tree = p.tree.withText target (Notebook.longerText text written))
      fun q => AppendStops p.tree note line q.tree := by
  refine .get_bind ?_
  refine (ends_orFail _ p).bind ?_ ?_
  · rintro p ⟨⟨e, he⟩, rfl⟩
    exact .unread fun text htext => nomatch he.symm.trans (Notebook.open?_of_read htext)
  rintro book p ⟨hopen, rfl⟩
  obtain ⟨rfl, node, hnode⟩ := Notebook.open?_eq_ok_iff.mp hopen
  refine (ends_orFail _ p).bind ?_ ?_
  · rintro p ⟨⟨e, he⟩, rfl⟩
    exact .unread fun text htext =>
      nomatch he.symm.trans (Notebook.planAppend_of_read htext line)
  rintro edit p ⟨hplan, rfl⟩
  -- The note reads as a text from here on.
  obtain ⟨text, hread⟩ := Notebook.exists_text_of_planAppend hnode hplan
  obtain ⟨-, target, hleads⟩ := Notebook.exists_file_of_read hread
  refine (ends_log _ p).bind_of_never fun _ q _ => ?_
  have hleads' : p.tree.LeadsToFile (Notebook.mk note).root target := hleads
  by_cases hline : line.IsText
  · obtain ⟨written, rfl⟩ := hline
    rw [Notebook.appendLine_of_read hread hleads' written]
    refine (ends_modify _ q).bind_of_never ?_
    rintro - _ rfl
    by_cases hname : note.name.IsText
    · obtain ⟨path, hpath⟩ := hname
      rw [Notebook.needText_eq_ok_iff.mpr hpath]
      refine ends_orFail_ok_bind ((ends_printLine _ _).mono ?_ fun _ h => h.elim)
      exact fun _ _ h => ⟨target, text, written, hleads, hread, rfl, ⟨path, hpath⟩, h⟩
    · obtain ⟨e, he⟩ := Notebook.needText_of_not_isText hname
      rw [he]
      exact ends_orFail_error_bind _ _ (.unnamed hread hleads hname)
  · obtain ⟨e, he⟩ := Notebook.appendLine_of_not_isText hread hleads' hline
    rw [he]
    refine (ends_modify _ q).bind_of_never ?_
    rintro - _ rfl
    exact ends_orFail_error_bind _ _ (.emptied hread hleads hline)

/-- A run that is stopped behind a file that was made sure of has changed files exactly when it
spoils the note. -/
theorem AppendStops.sameBytes_iff {before made after : FileTree} {note : Path} {line : RawText}
    (h : AppendStops made note line after) (hmade : before.ensureFile note = (made, .ok ())) :
    before.SameBytes after ↔ ¬Notebook.SpoilsNote before note line := by
  have hmost := FileTree.makesAtMost_of_ensureFile hmade
  cases h with
  | unread hread =>
      refine iff_of_true ?_ (Notebook.not_spoilsNote_of_not_read hmade hread line)
      exact FileTree.sameBytes_of_files (Notebook.files_eq_of_not_read hmost hread)
  | emptied hread hleads hline =>
      rw [Notebook.sameBytes_withText_nil_iff hmost hread hleads,
        Notebook.spoilsNote_iff hmade hread hleads]
      constructor
      · rintro hempty (⟨-, hne⟩ | ⟨htext, -⟩)
        · exact hne hempty
        · exact hline htext
      · intro hkept
        exact Classical.not_not.mp fun hne => hkept (.inl ⟨hline, hne⟩)
  | unnamed hread hleads hname =>
      refine iff_of_false (Notebook.not_sameBytes_longerText hmost hread hleads _) ?_
      exact not_not_intro ((Notebook.spoilsNote_iff hmade hread hleads).mpr
        (.inr ⟨RawText.isText_ofText _, hname⟩))

/-- Adding a task that is stopped has changed files exactly when it spoils the note. -/
theorem ends_runAdd (note : Path) (line : RawText) (p : Progress) :
    (runAdd note line).Ends p
      (fun _ q => (∃ written target, line = .ofText written ∧
        p.tree.AddsLine q.tree note written target) ∧ ¬Notebook.SpoilsNote p.tree note line)
      fun q => p.tree.SameBytes q.tree ↔ ¬Notebook.SpoilsNote p.tree note line := by
  refine (ends_ensureNote note p).bind ?_ fun _ q hmade => ?_
  · rintro q ⟨e, he⟩
    exact iff_of_true (FileTree.sameBytes_of_files (FileTree.files_of_ensureFile he))
      (Notebook.not_spoilsNote_of_error he line)
  refine (ends_appendTo note line q).mono ?_ fun r hr => hr.sameBytes_iff hmade
  rintro - r ⟨target, text, written, hleads, hread, rfl, hname, hr⟩
  refine ⟨⟨written, target, rfl, ?_⟩, ?_⟩
  · rw [hr]
    exact Notebook.addsLine_withText (FileTree.makesAtMost_of_ensureFile hmade) hread hleads written
  · rw [Notebook.spoilsNote_iff hmade hread hleads]
    rintro (⟨hline, -⟩ | ⟨-, hnone⟩)
    · exact hline (RawText.isText_ofText written)
    · exact hnone hname

/-! ## Whole runs -/

/-- A command that ends well does what it is for, and one that is stopped has changed files exactly
when it spoils a note. -/
theorem ends_execute (session : Session) (settings : Settings) (command : Command)
    (p : Progress) :
    (execute session settings command).Ends p
      (fun _ q => command.Leaves settings p.tree q.tree ∧ ¬command.Spoils settings p.tree)
      fun q => p.tree.SameBytes q.tree ↔ ¬command.Spoils settings p.tree := by
  have hsame {q : Progress} (h : q.tree = p.tree) : p.tree.SameBytes q.tree :=
    FileTree.sameBytes_of_files (congrArg FileTree.files h)
  -- The commands that only read keep the whole tree, however they end.
  have hreads : ∀ m : Run Unit, m.KeepsTree → m.Ends p (fun _ q => q.tree = p.tree ∧ ¬False)
      fun q => p.tree.SameBytes q.tree ↔ ¬False := fun m hm =>
    (hm p).mono (fun _ _ h => ⟨h, id⟩) fun _ h => iff_of_true (hsame h) id
  cases command with
  | parse line id =>
      unfold execute runParse
      refine hreads _ ((keepsTree_log _).bind fun _ => ?_)
      split
      · exact keepsTree_fail _
      · exact keepsTree_printRaw _
  | query place text asJson =>
      refine hreads _ ((keepsTree_openSource _ _ _).bind fun source => ?_)
      refine (keepsTree_loadTasks _ _).bind fun tasks => ?_
      refine (keepsTree_chosenQuery _ _).bind fun query => ?_
      exact (keepsTree_answer _ _ _).bind fun tasks => keepsTree_printTasks _ _
  | stats place text =>
      refine hreads _ ((keepsTree_openSource _ _ _).bind fun source => ?_)
      refine (keepsTree_loadTasks _ _).bind fun tasks => ?_
      have hshow : ∀ tasks : List Task,
          ((summaryLines (summarize tasks session.today)).forM printLine).KeepsTree :=
        fun tasks => .forM keepsTree_printLine
      split
      · exact (keepsTree_answer _ _ _).bind hshow
      · exact (KeepsTree.pure _).bind hshow
  | tags place =>
      refine hreads _ ((keepsTree_openSource _ _ _).bind fun source => ?_)
      refine (keepsTree_loadTasks _ _).bind fun tasks => ?_
      dsimp only
      split
      · exact keepsTree_printLine _
      · exact .forM keepsTree_printLine
  | setStatus place target status =>
      exact (ends_runSetStatus session settings _ place target status p).mono
        (fun _ _ h => ⟨h, id⟩) fun _ h => iff_of_true (hsame h) id
  | add note description priority due labels =>
      exact ends_runAdd note (newLine settings.tagStyle description priority due labels) p

/-- A session has one way to be prepared at most. -/
theorem Prepared.unique {options : GlobalOptions} {tree : FileTree} {settings settings' : Settings}
    (h : Prepared options tree settings) (h' : Prepared options tree settings') :
    settings' = settings := by
  obtain ⟨loaded, hload, rfl⟩ := h
  obtain ⟨loaded', hload', rfl⟩ := h'
  rw [Except.ok.inj (hload'.symm.trans hload)]

/-- Where the words in front are read, the words behind the name tell the command. -/
theorem asks_iff {session : Session} {tree : FileTree} {settings : Settings} {command : Command}
    {options : GlobalOptions} {name : RawText} {own : List RawText}
    {reader : List RawText → Except UsageError Command} {verbosity : Verbosity}
    (hglobal : readGlobal session.words = .ok (options, name, own))
    (hreader : reader? name = some reader)
    (hverbosity : Verbosity.ofSwitches options.verbose options.quiet = some verbosity) :
    Asks session tree settings command ↔
      Prepared options tree settings ∧ reader own = .ok command := by
  constructor
  · rintro ⟨options', own', reader', -, hglobal', hreader', -, hsettings, hcommand⟩
    have heq := Except.ok.inj (hglobal'.symm.trans hglobal)
    obtain rfl : options' = options := congrArg Prod.fst heq
    obtain rfl : own' = own := congrArg (·.2.2) heq
    have hname : RawText.ofText command.name = name := congrArg (·.2.1) heq
    rw [hname] at hreader'
    obtain rfl : reader' = reader := Option.some.inj (hreader'.symm.trans hreader)
    exact ⟨hsettings, hcommand⟩
  · rintro ⟨hsettings, hcommand⟩
    obtain rfl := eq_name_of_reader? hreader hcommand
    exact ⟨options, own, reader, verbosity, hglobal, hreader, hverbosity, hsettings, hcommand⟩

/-- Words ask for one command, under settings that the tree tells. -/
theorem Asks.unique {session : Session} {tree : FileTree} {settings settings' : Settings}
    {command command' : Command} (h : Asks session tree settings command)
    (h' : Asks session tree settings' command') : settings' = settings ∧ command' = command := by
  obtain ⟨options, own, reader, verbosity, hglobal, hreader, hverbosity, hsettings, hcommand⟩ := h
  obtain ⟨hsettings', hcommand'⟩ := (asks_iff hglobal hreader hverbosity).mp h'
  exact ⟨hsettings.unique hsettings', Except.ok.inj (hcommand'.symm.trans hcommand)⟩

/-- The command that is read from the words behind its name does what it is for, or is stopped. -/
theorem ends_runNamed (session : Session) (options : GlobalOptions)
    (reader : List RawText → Except UsageError Command) (own : List RawText) (p : Progress) :
    (runNamed session options reader own).Ends p
      (fun _ q => ∃ settings command, Prepared options p.tree settings ∧
        reader own = .ok command ∧ command.Leaves settings p.tree q.tree ∧
        ¬command.Spoils settings p.tree)
      fun q => (q.tree = p.tree ∧ ∀ settings command, Prepared options p.tree settings →
          reader own ≠ .ok command) ∨
        ∃ settings command, Prepared options p.tree settings ∧ reader own = .ok command ∧
          (p.tree.SameBytes q.tree ↔ ¬command.Spoils settings p.tree) := by
  -- The words behind the name are read after the settings; until then nothing is written.
  refine (ends_prepare options p).bind ?_ ?_
  · rintro q ⟨hq, hnone⟩
    exact .inl ⟨hq, fun settings _ hsettings => absurd hsettings (hnone settings)⟩
  rintro settings q ⟨hq, hsettings⟩
  rw [← hq] at hsettings ⊢
  refine (ends_orUsage (reader own) q).bind ?_ ?_
  · rintro q ⟨⟨e, he⟩, rfl⟩
    exact .inl ⟨rfl, fun _ _ _ hcommand => nomatch he.symm.trans hcommand⟩
  rintro command q ⟨hcommand, rfl⟩
  refine (ends_execute session settings command q).mono ?_ ?_
  · exact fun _ _ h => ⟨settings, command, hsettings, hcommand, h⟩
  · exact fun _ h => .inr ⟨settings, command, hsettings, hcommand, h⟩

/-- The exit code tells how the run ended. -/
theorem outcome_of_ends {m : Run Unit} {tree : FileTree} (done stopped : FileTree → Prop)
    (h : m.Ends { tree } (fun _ q => done q.tree) fun q => stopped q.tree) (threshold : Int) :
    (outcome threshold tree m).ending.exitCode = 0 ∧ done (outcome threshold tree m).tree ∨
      (outcome threshold tree m).ending.exitCode ≠ 0 ∧ stopped (outcome threshold tree m).tree := by
  have hrun : m.run { tree } = m.run.run { tree } := rfl
  unfold outcome
  rw [hrun]
  unfold Run.Ends at h
  cases hends : m.run.run { tree } with
  | mk result q =>
      rw [hends] at h
      cases result with
      | ok u => exact .inl ⟨rfl, h⟩
      | error e => exact .inr ⟨fun hcode => h.1 (Ending.exitCode_eq_zero_iff.mp hcode), h.2⟩

/-- How a run ends: its words ask for no command, or the command does what it is for and spoils
nothing, or it is stopped and has changed files exactly when it spoils a note. -/
theorem run_ends (session : Session) (tree : FileTree) :
    ((run session tree).ending.exitCode ≠ 0 ∧ (run session tree).tree = tree ∧
        ∀ settings command, ¬Asks session tree settings command) ∨
      ∃ settings command, Asks session tree settings command ∧
        ((run session tree).ending.exitCode = 0 ∧
            command.Leaves settings tree (run session tree).tree ∧ ¬command.Spoils settings tree ∨
          (run session tree).ending.exitCode ≠ 0 ∧
            (tree.SameBytes (run session tree).tree ↔ ¬command.Spoils settings tree)) := by
  unfold run
  split
  · next e hglobal =>
      refine .inl ⟨nofun, rfl, ?_⟩
      rintro settings command ⟨options, own, reader, verbosity, hglobal', -⟩
      exact nomatch hglobal.symm.trans hglobal'
  · next options name own hglobal =>
      split
      · next hreader =>
          refine .inl ⟨nofun, rfl, ?_⟩
          rintro settings command ⟨options', own', reader, verbosity, hglobal', hreader', -⟩
          -- The name that no reader answers to is the name of the command that would be asked for.
          have hname : name = .ofText command.name :=
            congrArg (·.2.1) (Except.ok.inj (hglobal.symm.trans hglobal'))
          rw [← hname] at hreader'
          exact nomatch hreader.symm.trans hreader'
      · next hverbosity _ =>
          refine .inl ⟨nofun, rfl, ?_⟩
          rintro settings command ⟨options', own', reader, verbosity, hglobal', -, hverbosity', -⟩
          have hoptions : options = options' :=
            congrArg Prod.fst (Except.ok.inj (hglobal.symm.trans hglobal'))
          rw [← hoptions] at hverbosity'
          exact nomatch hverbosity.symm.trans hverbosity'
      · next reader verbosity hreader hverbosity =>
          have hasks {settings : Settings} {command : Command} :
              Asks session tree settings command ↔
                Prepared options tree settings ∧ reader own = .ok command :=
            asks_iff hglobal hreader hverbosity
          rcases outcome_of_ends
            (fun after => ∃ settings command, Prepared options tree settings ∧
              reader own = .ok command ∧ command.Leaves settings tree after ∧
              ¬command.Spoils settings tree)
            (fun after => (after = tree ∧ ∀ settings command, Prepared options tree settings →
                reader own ≠ .ok command) ∨
              ∃ settings command, Prepared options tree settings ∧ reader own = .ok command ∧
                (tree.SameBytes after ↔ ¬command.Spoils settings tree))
            (ends_runNamed session options reader own { tree }) verbosity.threshold with
            ⟨hcode, settings, command, hsettings, hcommand, hdone⟩ |
            ⟨hcode, ⟨htree, hnone⟩ | ⟨settings, command, hsettings, hcommand, hiff⟩⟩
          · exact .inr ⟨settings, command, hasks.mpr ⟨hsettings, hcommand⟩, .inl ⟨hcode, hdone⟩⟩
          · refine .inl ⟨hcode, htree, fun settings command h => ?_⟩
            obtain ⟨hsettings, hcommand⟩ := hasks.mp h
            exact hnone settings command hsettings hcommand
          · exact .inr ⟨settings, command, hasks.mpr ⟨hsettings, hcommand⟩, .inr ⟨hcode, hiff⟩⟩

/-- **What commands leave behind.** A run that does not end well leaves all files with the bytes
that they had, and one that ends well does to them what its command is for, exactly when the run
does not spoil a note: it asks to add a task whose line is no text, or one to a note whose name is
none. -/
theorem run_leaves_files_iff (session : Session) (tree : FileTree) :
    LeavesFiles session tree ↔ ¬SpoilsFiles session tree := by
  rcases run_ends session tree with ⟨hcode, htree, hnone⟩ | ⟨settings, command, hasks, hends⟩
  · refine iff_of_true ⟨fun _ => ?_, fun hzero => absurd hzero hcode⟩ ?_
    · exact FileTree.sameBytes_of_files (congrArg FileTree.files htree)
    · rintro ⟨settings, command, hasks, -⟩
      exact hnone settings command hasks
  have hspoils : SpoilsFiles session tree ↔ command.Spoils settings tree := by
    constructor
    · rintro ⟨settings', command', hasks', hspoils⟩
      obtain ⟨rfl, rfl⟩ := hasks.unique hasks'
      exact hspoils
    · exact fun h => ⟨settings, command, hasks, h⟩
  rw [hspoils]
  rcases hends with ⟨hcode, hleaves, hkept⟩ | ⟨hcode, hiff⟩
  · exact iff_of_true ⟨fun hfailed => absurd hcode hfailed, fun _ =>
      ⟨settings, command, hasks, hleaves⟩⟩ hkept
  · rw [← hiff]
    constructor
    · exact fun h => h.of_failed hcode
    · exact fun h => ⟨fun _ => h, fun hzero => absurd hzero hcode⟩

/-- A session that asks to add a task whose description holds half of a surrogate pair. -/
def brokenSession : Session where
  words := [RawText.ofText "add".toList, RawText.ofText "n.md".toList,
    [.char 'a', .surrogate ⟨0x4FF, by decide⟩]]
  input := []
  today := Date.first

/-- It fails, and the note that it was to be added to is empty. -/
theorem not_run_leaves_files_brokenSession :
    ¬∀ (session : Session) (tree : FileTree), LeavesFiles session tree := by
  intro h
  have hleaves := h brokenSession (Notebook.oneNoteTree "- [ ] a\n".toList)
  have hfailed : (run brokenSession
      (Notebook.oneNoteTree "- [ ] a\n".toList)).ending.exitCode ≠ 0 := by
    decide +kernel
  have hemptied : ((run brokenSession
      (Notebook.oneNoteTree "- [ ] a\n".toList)).tree.files.lookup
        [Utf8.encode "n.md".toList]).map File.bytes = some [] := by
    decide +kernel
  have hsame := (hleaves.of_failed hfailed [Utf8.encode "n.md".toList]).symm.trans hemptied
  exact absurd hsame (by decide +kernel)

end Command

end Checklist
