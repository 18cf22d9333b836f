import Checklist.Command.Run

/-!
# Endings of runs — what holds when a run gives its result, and when it is stopped

`Run.Ends` says of a run that starts at some progress what holds when it gives a result, and what
holds when it is stopped, which success never does. It has one rule for each way in which runs are
made (`ends_pure`, `ends_throw`, `ends_get`, `ends_modify`, `Ends.bind`).

Most of what commands do reads the file tree and leaves it alone (`KeepsTree`): taking the words and
the settings, opening a source, reading its tasks, and printing. What is written to the log or to
standard output does not stop a run either (`ends_log`, `ends_print`).
-/

namespace Checklist

variable {α β : Type}

/-- How a run ends that starts at this progress: with a result, or stopped by an ending other than
success. -/
def Run.Ends (m : Run α) (p : Progress) (done : α → Progress → Prop)
    (stopped : Progress → Prop) : Prop :=
  match m.run.run p with
  | (.ok a, q) => done a q
  | (.error e, q) => e ≠ .success ∧ stopped q

/-- The run may read the file tree, but however it ends the tree is what it was. -/
def Run.KeepsTree (m : Run α) : Prop :=
  ∀ p, m.Ends p (fun _ q => q.tree = p.tree) fun q => q.tree = p.tree

/-- Success alone has the exit code 0. -/
theorem Ending.exitCode_eq_zero_iff {e : Ending} : e.exitCode = 0 ↔ e = .success := by
  cases e <;> simp [Ending.exitCode]

namespace Run

variable {m : Run α} {f : α → Run β} {p : Progress} {done done' : α → Progress → Prop}
  {after : β → Progress → Prop} {stopped stopped' : Progress → Prop}

/-! ## Rules -/

/-- A run that is a value gives it. -/
theorem ends_pure (a : α) (p : Progress) :
    (pure a : Run α).Ends p (fun b q => b = a ∧ q = p) fun _ => False := ⟨rfl, rfl⟩

/-- A run that is an ending is stopped where it starts. -/
theorem ends_throw {e : Ending} (he : e ≠ .success) (p : Progress) :
    (throw e : Run α).Ends p (fun _ _ => False) fun q => q = p := ⟨he, rfl⟩

/-- Looking at the progress gives it. -/
theorem ends_get (p : Progress) :
    (get : Run Progress).Ends p (fun b q => b = p ∧ q = p) fun _ => False := ⟨rfl, rfl⟩

/-- Changing the progress is not stopped. -/
theorem ends_modify (g : Progress → Progress) (p : Progress) :
    (modify g : Run Unit).Ends p (fun _ q => q = g p) fun _ => False := rfl

/-- What follows from what holds at the end holds there too. -/
theorem Ends.mono (hm : m.Ends p done stopped) (hdone : ∀ a q, done a q → done' a q)
    (hstopped : ∀ q, stopped q → stopped' q) : m.Ends p done' stopped' := by
  unfold Ends at hm ⊢
  split at hm
  · next a q hrun => exact hdone a q hm
  · next e q hrun => exact hm.imp id (hstopped q)

/-- The second run starts where the first one gave its result. -/
theorem Ends.bind (hm : m.Ends p done stopped) (hstopped : ∀ q, stopped q → stopped' q)
    (hf : ∀ a q, done a q → (f a).Ends q after stopped') : (m >>= f).Ends p after stopped' := by
  unfold Ends at hm ⊢
  cases hrun : m.run.run p with
  | mk result q =>
      rw [hrun] at hm
      cases result with
      | ok a =>
          have hbind : (m >>= f).run.run p = (f a).run.run q := by
            rw [ExceptT.run_bind, StateT.run_bind, hrun]
            rfl
          rw [hbind]
          exact hf a q hm
      | error e =>
          have hbind : (m >>= f).run.run p = (.error e, q) := by
            rw [ExceptT.run_bind, StateT.run_bind, hrun]
            rfl
          rw [hbind]
          exact hm.imp id (hstopped q)

/-- Behind a run that is not stopped. -/
theorem Ends.bind_of_never (hm : m.Ends p done fun _ => False)
    (hf : ∀ a q, done a q → (f a).Ends q after stopped) : (m >>= f).Ends p after stopped :=
  hm.bind (fun _ h => h.elim) hf

/-- What is read is the progress at the start. -/
theorem Ends.get_bind {f : Progress → Run β} (hf : (f p).Ends p after stopped) :
    (get >>= f).Ends p after stopped := by
  refine (ends_get p).bind_of_never ?_
  rintro _ p ⟨rfl, rfl⟩
  exact hf

/-! ## Runs that keep the tree -/

/-- A run that changes nothing at all keeps the tree. -/
theorem KeepsTree.of_same (h : ∀ p, m.Ends p (fun _ q => q = p) fun q => q = p) : m.KeepsTree :=
  fun p => (h p).mono (fun _ _ hq => congrArg Progress.tree hq) fun _ hq =>
    congrArg Progress.tree hq

/-- So does one that is never stopped and gives its result with the same tree. -/
theorem KeepsTree.of_never (h : ∀ p, m.Ends p (fun _ q => q.tree = p.tree) fun _ => False) :
    m.KeepsTree :=
  fun p => (h p).mono (fun _ _ hq => hq) fun _ hq => hq.elim

/-- A value keeps the tree. -/
theorem KeepsTree.pure (a : α) : (pure a : Run α).KeepsTree :=
  .of_same fun p => (ends_pure a p).mono (fun _ _ h => h.2) fun _ h => h.elim

/-- So does an ending. -/
theorem KeepsTree.throw {e : Ending} (he : e ≠ .success) : (throw e : Run α).KeepsTree :=
  .of_same fun p => (ends_throw he p).mono (fun _ _ h => h.elim) fun _ h => h

/-- So does looking at the progress. -/
theorem KeepsTree.get : (get : Run Progress).KeepsTree :=
  .of_same fun p => (ends_get p).mono (fun _ _ h => h.2) fun _ h => h.elim

/-- Two runs that keep the tree keep it one after the other. -/
theorem KeepsTree.bind (hm : m.KeepsTree) (hf : ∀ a, (f a).KeepsTree) :
    (m >>= f).KeepsTree := by
  intro p
  refine (hm p).bind (fun _ h => h) fun a q hq => ?_
  exact (hf a q).mono (fun _ _ h => h.trans hq) fun _ h => h.trans hq

/-- And so do many. By induction on what they are made for. -/
theorem KeepsTree.forM {xs : List α} {g : α → Run Unit} (hg : ∀ a, (g a).KeepsTree) :
    (xs.forM g).KeepsTree := by
  induction xs with
  | nil => exact .pure ()
  | cons a xs ih => exact (hg a).bind fun _ => ih

end Run

namespace Command

open Run

/-! ## The steps of commands -/

/-- Writing to the log is not stopped. -/
theorem ends_log (entries : List Log.Entry) (p : Progress) :
    (log entries).Ends p (fun _ q => q.tree = p.tree) fun _ => False := rfl

/-- Writing to standard output is not stopped. -/
theorem ends_print (text : Text) (p : Progress) :
    (print text).Ends p (fun _ q => q.tree = p.tree) fun _ => False := rfl

/-- Nor is writing a line there. -/
theorem ends_printLine (text : Text) (p : Progress) :
    (printLine text).Ends p (fun _ q => q.tree = p.tree) fun _ => False := rfl

/-- Telling the log what is about to be saved is not stopped and writes to no file. -/
theorem ends_logSaving (source : Source) (codec : Codec) (t : Task) (p : Progress) :
    (logSaving source codec t).Ends p (fun _ q => q.tree = p.tree) fun _ => False := by
  refine .get_bind ?_
  cases source with
  | text store => exact (ends_pure () p).mono (fun _ _ h => congrArg Progress.tree h.2) fun _ h => h
  | notebook book => exact ends_log _ p

/-- An operation on notes gives its result or stops the run, and by itself changes nothing. -/
theorem ends_orFail (result : Except NoteError α) (p : Progress) :
    (orFail result).Ends p (fun a q => result = .ok a ∧ q = p)
      fun q => (∃ e, result = .error e) ∧ q = p := by
  cases result with
  | ok a => exact ⟨rfl, rfl⟩
  | error e =>
      unfold orFail
      dsimp only
      split
      · exact ⟨nofun, ⟨e, rfl⟩, rfl⟩
      · exact ⟨nofun, ⟨e, rfl⟩, rfl⟩

/-- The run goes on with a result that is there. -/
theorem ends_orFail_ok_bind {a : α} {f : α → Run β} {p : Progress}
    {after : β → Progress → Prop} {stopped : Progress → Prop} (hf : (f a).Ends p after stopped) :
    (orFail (.ok a) >>= f).Ends p after stopped := by
  refine (ends_orFail _ p).bind ?_ ?_
  · rintro q ⟨⟨e, he⟩, -⟩
    exact nomatch he
  · rintro b q ⟨hb, rfl⟩
    obtain rfl := Except.ok.inj hb
    exact hf

/-- An error stops the run where it is met. -/
theorem ends_orFail_error_bind (e : NoteError) (f : α → Run β) {p : Progress}
    {after : β → Progress → Prop} {stopped : Progress → Prop} (h : stopped p) :
    (orFail (.error e) >>= f).Ends p after stopped := by
  refine (ends_orFail _ p).bind (fun q hq => hq.2 ▸ h) ?_
  rintro a q ⟨hnone, -⟩
  exact nomatch hnone

/-- An operation on files does the same. -/
theorem ends_orFailFile (result : Except FileError α) (p : Progress) :
    (orFailFile result).Ends p (fun a q => result = .ok a ∧ q = p)
      fun q => (∃ e, result = .error e) ∧ q = p := by
  cases result with
  | ok a => exact ⟨rfl, rfl⟩
  | error e => exact ⟨nofun, ⟨e, rfl⟩, rfl⟩

/-- So does reading words. -/
theorem ends_orUsage (result : Except UsageError α) (p : Progress) :
    (orUsage result).Ends p (fun a q => result = .ok a ∧ q = p)
      fun q => (∃ e, result = .error e) ∧ q = p := by
  cases result with
  | ok a => exact ⟨rfl, rfl⟩
  | error e => exact ⟨nofun, ⟨e, rfl⟩, rfl⟩

/-- The log is no file of the tree. -/
theorem keepsTree_log (entries : List Log.Entry) : (log entries).KeepsTree :=
  .of_never (ends_log entries)

/-- Neither is standard output. -/
theorem keepsTree_printLine (text : Text) : (printLine text).KeepsTree :=
  .of_never (ends_printLine text)

/-- A line that is no text stops the run, but changes no file. -/
theorem keepsTree_printRaw (line : RawText) : (printRaw line).KeepsTree := by
  unfold printRaw
  split
  · exact keepsTree_printLine _
  · exact .throw nofun

/-- To end with a message changes no file. -/
theorem keepsTree_fail (message : RawText) : (fail message : Run α).KeepsTree := .throw nofun

/-- Going on with a result changes no file. -/
theorem keepsTree_orFail (result : Except NoteError α) : (orFail result).KeepsTree :=
  .of_same fun p => (ends_orFail result p).mono (fun _ _ h => h.2) fun _ h => h.2

/-- To refuse a setting changes no file. -/
theorem keepsTree_refuseSetting (value : Json) : (refuseSetting value : Run α).KeepsTree :=
  .throw nofun

/-- Standard input is read, if at all. -/
theorem keepsTree_inputAt (session : Session) (place : RawText) :
    (inputAt session place).KeepsTree := by
  unfold inputAt
  split
  · exact keepsTree_orFail _
  · exact .pure []

/-- A source is looked for in the tree. -/
theorem keepsTree_sourceAt (session : Session) (place : RawText) :
    (sourceAt session place).KeepsTree := by
  refine (keepsTree_inputAt session place).bind fun input => ?_
  exact KeepsTree.get.bind fun p => keepsTree_orFail _

/-- So is the source at the place that is given or set. -/
theorem keepsTree_openSource (session : Session) (settings : Settings) (place : Option RawText) :
    (openSource session settings place).KeepsTree := by
  unfold openSource
  split
  · exact .throw nofun
  · exact keepsTree_sourceAt session _
  · exact keepsTree_refuseSetting _

/-- The query is given or set. -/
theorem keepsTree_chosenQuery (settings : Settings) (query : Option RawText) :
    (chosenQuery settings query).KeepsTree := by
  unfold chosenQuery
  split
  · exact .pure _
  · exact .pure _
  · exact keepsTree_refuseSetting _

/-- Notes that are passed over are told to the log only. -/
theorem keepsTree_logSkipped (source : Source) : (logSkipped source).KeepsTree := by
  refine KeepsTree.get.bind fun p => ?_
  cases source with
  | text store => exact .pure ()
  | notebook book => exact keepsTree_log _

/-- Loading the tasks of a source only reads. -/
theorem keepsTree_loadTasks (source : Source) (codec : Codec) :
    (loadTasks source codec).KeepsTree := by
  refine (keepsTree_logSkipped source).bind fun _ => KeepsTree.get.bind fun p => ?_
  exact (keepsTree_orFail _).bind fun records => (keepsTree_log _).bind fun _ => .pure _

/-- A query is answered from the tasks alone. -/
theorem keepsTree_answer (session : Session) (tasks : List Task) (query : RawText) :
    (answer session tasks query).KeepsTree := by
  unfold answer
  generalize Disguise.of query (tasks.flatMap searchedText) = disguise
  refine (keepsTree_log _).bind fun _ => ?_
  cases compileQuery (disguise.hide query) session.today with
  | error e => exact .throw nofun
  | ok spec => exact (keepsTree_log _).bind fun _ => .pure _

/-- Tasks are printed to standard output. -/
theorem keepsTree_printTasks (tasks : List Task) (asJson : Bool) :
    (printTasks tasks asJson).KeepsTree := by
  unfold printTasks
  split
  · exact keepsTree_printLine _
  · split
    · exact keepsTree_printLine _
    · exact .forM fun t => keepsTree_printLine _

/-- The settings under which commands run: those of the file, with the tag style of the options. -/
def Prepared (options : GlobalOptions) (tree : FileTree) (settings : Settings) : Prop :=
  ∃ loaded, Settings.load tree (options.settingsPath tree.home) = .ok loaded ∧
    settings = { loaded with tagStyle := options.tagStyle.getD loaded.tagStyle }

/-- The settings are read from the tree, or the run is stopped as there are none. -/
theorem ends_prepare (options : GlobalOptions) (p : Progress) :
    (prepare options).Ends p
      (fun settings q => q.tree = p.tree ∧ Prepared options p.tree settings)
      fun q => q.tree = p.tree ∧ ∀ settings, ¬Prepared options p.tree settings := by
  have hnone {e : SettingsError}
      (h : Settings.load p.tree (options.settingsPath p.tree.home) = .error e)
      (settings : Settings) :
      ¬Prepared options p.tree settings := by
    rintro ⟨loaded, hloaded, -⟩
    exact nomatch hloaded.symm.trans h
  refine .get_bind ?_
  split
  · next e hload => exact ⟨nofun, rfl, hnone hload⟩
  · next e hload => exact ⟨nofun, rfl, hnone hload⟩
  · next loaded hload => exact ⟨rfl, loaded, hload, rfl⟩

end Command

end Checklist
