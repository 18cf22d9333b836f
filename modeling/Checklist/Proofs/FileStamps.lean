import Checklist.Notes.Source
import Checklist.Proofs.NoteRows
import Checklist.Proofs.NoteFiles
import Checklist.Proofs.StampTexts

/-!
# File stamps — the times of files through records and back

A file's times reach its records as texts, and tasks are sorted by what these texts name. A whole
number of seconds has a text exactly when it is that of an instant of the calendar, and then the
text is the instant's form with the offset of UTC (`isoOfStamp_sinceEpoch`), which names the number
again. So tasks that are read from notes are sorted by the times of the notes.
-/

namespace Checklist

/-! ## Texts of whole seconds -/

theorem splitStamp_intCast (s : Int) : splitStamp (s : Rat) = (s, 0) := by
  rw [splitStamp, Rat.den_intCast, Rat.num_intCast]
  rfl

/-- The seconds of an instant are written as the instant. -/
theorem isoOfStamp_sinceEpoch (i : Instant) :
    isoOfStamp (i.sinceEpoch : Rat) = .ok i.isoUtc := by
  obtain ⟨hfirst, hlast⟩ := i.sinceEpoch_bounds
  obtain ⟨hhour, hminute, hsecond⟩ := i.valid
  rw [Instant.sinceEpoch_first] at hfirst
  rw [Instant.sinceEpoch_last] at hlast
  have hepoch : (Instant.epoch.date.ordinal : Int) = Moment.epochDay := by decide
  -- The quotient by the seconds of a day is the day, and the remainder is what the clock shows.
  have hday : (i.sinceEpoch / 86400 + Moment.epochDay).toNat = i.date.ordinal := by
    rw [Instant.sinceEpoch, hepoch]
    omega
  have hclock : (i.sinceEpoch % 86400).toNat = 3600 * i.hour + 60 * i.minute + i.second := by
    rw [Instant.sinceEpoch]
    omega
  have hhands : (3600 * i.hour + 60 * i.minute + i.second) / 3600 = i.hour ∧
      (3600 * i.hour + 60 * i.minute + i.second) / 60 % 60 = i.minute ∧
      (3600 * i.hour + 60 * i.minute + i.second) % 60 = i.second := by
    omega
  have hbound : ¬ (i.sinceEpoch < -secondsBound ∨ secondsBound ≤ i.sinceEpoch) := by
    rw [secondsBound]
    omega
  simp only [isoOfStamp, splitStamp_intCast, if_neg hbound, hday, hclock, hhands,
    Date.ofOrdinal?_ordinal]
  simp [Instant.isoUtc, Instant.iso, Instant.clockText]

/-- A whole number of seconds that has a text is that of an instant. -/
theorem exists_sinceEpoch_of_isoOfStamp {s : Int} {text : Text}
    (h : isoOfStamp (s : Rat) = .ok text) : ∃ i : Instant, i.sinceEpoch = s := by
  simp only [isoOfStamp, splitStamp_intCast] at h
  split at h
  · exact nomatch h
  · split at h
    · next date hdate =>
        -- A day ahead of the first would have been looked up by 0, which is no day's number.
        have hday := Date.ofOrdinal?_eq_some_iff.mp hdate
        have hpos := date.ordinal_pos
        have hepoch : (Instant.epoch.date.ordinal : Int) = Moment.epochDay := by decide
        have hclock : (s % 86400).toNat < 86400 := by omega
        refine ⟨.ofClock date (s % 86400).toNat hclock, ?_⟩
        rw [Instant.sinceEpoch_ofClock, hepoch]
        omega
    · split at h <;> exact nomatch h

/-- The whole numbers of seconds that are written and named again are those of the calendar. -/
theorem exists_secondsOf_isoOfStamp_iff {s : Int} :
    (∃ text, isoOfStamp (s : Rat) = .ok text ∧ secondsOf (some text) = s) ↔
      -62135596800 ≤ s ∧ s ≤ 253402300799 := by
  constructor
  · rintro ⟨text, htext, -⟩
    obtain ⟨i, rfl⟩ := exists_sinceEpoch_of_isoOfStamp htext
    rw [← Instant.sinceEpoch_first, ← Instant.sinceEpoch_last]
    exact i.sinceEpoch_bounds
  · rintro ⟨hfirst, hlast⟩
    obtain ⟨i, rfl⟩ := Instant.exists_sinceEpoch_eq (Instant.sinceEpoch_first ▸ hfirst)
      (Instant.sinceEpoch_last ▸ hlast)
    exact ⟨i.isoUtc, isoOfStamp_sinceEpoch i, i.secondsOf_isoUtc⟩

/-! ## Tasks of notes -/

namespace Notebook

variable {book : Notebook} {tree : FileTree} {codec : Codec} {note : Path} {file : File} {t : Task}

/-- The notebook reads the task from a line of this note, and the note is this file. -/
structure ReadsTask (book : Notebook) (tree : FileTree) (codec : Codec) (note : Path) (file : File)
    (t : Task) : Prop where
  listed : note ∈ book.notes tree
  read : tree.readFile note = .ok file
  written : ∃ rs, book.noteRecords tree note = .ok rs ∧ t ∈ codec.parseRecords rs

/-- A record of a note holds the text of the file's time. -/
theorem exists_stamp_of_mem_noteRecords {rs : List Record}
    (hrs : book.noteRecords tree note = .ok rs) {r : Record} (hr : r ∈ rs) :
    ∃ file text, tree.readFile note = .ok file ∧ isoOfStamp file.modified = .ok text ∧
      r.source.updated = some text := by
  obtain ⟨-, hnone, htold⟩ := noteRecords_eq_ok_iff.mp hrs
  by_cases hitem : HasItem tree note
  · obtain ⟨path, source, -, hsource, rfl⟩ := htold hitem
    simp only [provenance, bind_eq_ok_iff, mapError_eq_ok_iff] at hsource
    obtain ⟨file, hfile, updated, hupdated, created, -, hsource⟩ := hsource
    obtain rfl := Except.ok.inj hsource
    obtain ⟨numbered, -, hrecord⟩ := List.mem_filterMap.mp hr
    rw [recordAt] at hrecord
    split at hrecord
    · obtain rfl := Option.some.inj hrecord
      exact ⟨file, updated, hfile, hupdated, rfl⟩
    · exact absurd hrecord.symm (Option.some_ne_none r)
  · rw [hnone hitem] at hr
    exact absurd hr List.not_mem_nil

/-- Every task of a notebook is read from one of its notes. -/
theorem exists_readsTask {tasks : List Task}
    (h : (Source.notebook book).tasks tree codec = .ok tasks) (ht : t ∈ tasks) :
    ∃ note file, book.ReadsTask tree codec note file t := by
  obtain ⟨rs, hrecords, rfl⟩ := map_eq_ok_iff.mp h
  obtain ⟨r, hr, hparse⟩ := List.mem_filterMap.mp ht
  obtain ⟨found, hfound, rfl⟩ := records_eq_ok_iff.mp hrecords
  obtain ⟨note, hnote, hr⟩ := List.mem_flatMap.mp hr
  obtain ⟨file, -, hfile, -⟩ := exists_stamp_of_mem_noteRecords (hfound note hnote) hr
  exact ⟨note, file, hnote, hfile, _, hfound note hnote, List.mem_filterMap.mpr ⟨r, hr, hparse⟩⟩

/-- The stamp of the task is the text of the file's time. -/
theorem ReadsTask.updated_eq (h : book.ReadsTask tree codec note file t) :
    ∃ text, isoOfStamp file.modified = .ok text ∧ t.updated = some text := by
  obtain ⟨rs, hrs, ht⟩ := h.written
  obtain ⟨r, hr, hparse⟩ := List.mem_filterMap.mp ht
  obtain ⟨item, -, rfl⟩ := Option.map_eq_some_iff.mp hparse
  obtain ⟨found, text, hfound, htext, hupdated⟩ := exists_stamp_of_mem_noteRecords hrs hr
  obtain rfl := Except.ok.inj (hfound.symm.trans h.read)
  exact ⟨text, htext, hupdated⟩

/-- The key of a task from a note is the time of the note. -/
theorem ReadsTask.key_eq (h : book.ReadsTask tree codec note file t) {s : Int}
    (hs : file.modified = s) (hcalendar : -62135596800 ≤ s ∧ s ≤ 253402300799) :
    SortField.updated.key t = .number s := by
  obtain ⟨text, htext, hsecs⟩ := exists_secondsOf_isoOfStamp_iff.mpr hcalendar
  obtain ⟨written, hwritten, hupdated⟩ := h.updated_eq
  rw [hs, htext] at hwritten
  have hstamp : SortField.updated.stamp? t = some text := by
    rw [SortField.stamp?, hupdated, Except.ok.inj hwritten]
  rw [key_of_stamp? hstamp, hsecs]

end Notebook

/-- **File times survive the trip through records.** A whole number of seconds is written as a text
that names it again exactly when it lies in the calendar. Every task of a notebook is read from one
of its notes, and tasks that are read from notes, of one notebook or of several, are sorted by the
times at which their notes were changed; those of one time stand as they came. -/
theorem fileStamps_survive_and_sort :
    (∀ s : Int, (∃ text, isoOfStamp (s : Rat) = .ok text ∧ secondsOf (some text) = (s : Rat)) ↔
      -62135596800 ≤ s ∧ s ≤ 253402300799) ∧
    (∀ (book : Notebook) (tree : FileTree) (codec : Codec) (tasks : List Task),
      (Source.notebook book).tasks tree codec = .ok tasks →
      ∀ t ∈ tasks, ∃ note file, book.ReadsTask tree codec note file t) ∧
    ∀ (tasks : List Task) (modified : Task → Int) (direction : SortDirection),
      (∀ t ∈ tasks, (-62135596800 ≤ modified t ∧ modified t ≤ 253402300799) ∧
        ∃ book tree codec note file, Notebook.ReadsTask book tree codec note file t ∧
          file.modified = (modified t : Rat)) →
      SortedBy modified (· < ·) direction tasks (sortTasks tasks ⟨.updated, direction⟩) := by
  refine ⟨fun s => exists_secondsOf_isoOfStamp_iff,
    fun book tree codec tasks h t ht => Notebook.exists_readsTask h ht, ?_⟩
  intro tasks modified direction h
  refine sortedBy_of_count id (fun _ _ => Iff.rfl) ?_ direction
  intro t ht
  obtain ⟨hcalendar, book, tree, codec, note, file, hreads, hmodified⟩ := h t ht
  exact hreads.key_eq hmodified hcalendar

/-- A directory with notes. -/
def twoNotes : Notebook := ⟨Path.ofText "n".toList⟩

/-- The directory of the notes on the disk. -/
def twoNotesPlace : Location := [Utf8.encode "n".toList]

/-- The tree with two notes of one item each, the second of which was changed before 1970. -/
def twoNotesTree : FileTree where
  directories := [twoNotesPlace]
  files := [(twoNotesPlace ++ [Utf8.encode "a.md".toList],
      ⟨Utf8.encode "- [ ] a".toList, 1709186704, 0⟩),
    (twoNotesPlace ++ [Utf8.encode "b.md".toList], ⟨Utf8.encode "- [ ] b".toList, -1, 0⟩)]

theorem notes_twoNotes :
    twoNotes.notes twoNotesTree = ["n/a.md".toList, "n/b.md".toList].map Path.ofText := by
  have hfile : twoNotesTree.isFile twoNotes.root = false := by decide +kernel
  have hlocate : twoNotesTree.locate twoNotes.root = .ok twoNotesPlace := by decide +kernel
  have hsorted : [[RawText.ofText "a.md".toList], [RawText.ofText "b.md".toList]].Pairwise
      (lexLe RawText.le · ·) := by decide
  have hfound : ((twoNotesTree.below twoNotesPlace).map (·.map RawText.decodeName)).filter
      (fun names => Path.hasNoteEnding (names.getLast?.getD [])) =
        [[RawText.ofText "a.md".toList], [RawText.ofText "b.md".toList]] := by decide +kernel
  rw [Notebook.notes, hfile]
  simp only [hlocate, hfound, List.mergeSort_of_pairwise hsorted]
  decide +kernel

/-- The time of the note that the task came from. -/
def noteTime (t : Task) : Int := if t.path = some "a.md".toList then 1709186704 else -1

/-- A task of the two notes has the time of its note. -/
theorem modified_eq_noteTime {note : Path} {file : File} {t : Task}
    (h : twoNotes.ReadsTask twoNotesTree ⟨.wrapped, .first⟩ note file t) :
    file.modified = (noteTime t : Rat) := by
  -- For a note with the time `time`, all of whose tasks were given that time.
  have hcase (time : Int)
      (hfile : (twoNotesTree.readFile note).toOption.map File.modified = some (time : Rat))
      (htimes : (twoNotes.noteRecords twoNotesTree note).toOption.map
        (fun rs => ((Codec.mk .wrapped .first).parseRecords rs).map noteTime) = some [time]) :
      file.modified = (noteTime t : Rat) := by
    obtain ⟨rs, hrs, ht⟩ := h.written
    rw [hrs] at htimes
    have htimes : ((Codec.mk .wrapped .first).parseRecords rs).map noteTime = [time] :=
      Option.some.inj htimes
    have htime := List.mem_map_of_mem (f := noteTime) ht
    rw [htimes, List.mem_singleton] at htime
    rw [h.read] at hfile
    rw [htime]
    exact Option.some.inj hfile
  have hlisted := h.listed
  rw [notes_twoNotes] at hlisted
  simp only [List.map_cons, List.map_nil, List.mem_cons, List.not_mem_nil, or_false] at hlisted
  rcases hlisted with rfl | rfl
  · exact hcase 1709186704 (by decide +kernel) (by decide +kernel)
  · exact hcase (-1) (by decide +kernel) (by decide +kernel)

/-- The two tasks are read, and sorted by the times of their notes. -/
theorem fileStamps_survive_and_sort_twoNotes :
    ∃ tasks, (Source.notebook twoNotes).tasks twoNotesTree ⟨.wrapped, .first⟩ = .ok tasks ∧
      tasks.map noteTime = [1709186704, -1] ∧
      SortedBy noteTime (· < ·) .ascending tasks (sortTasks tasks ⟨.updated, .ascending⟩) := by
  obtain ⟨-, hreads, hsort⟩ := fileStamps_survive_and_sort
  have htimes : (((Source.notebook twoNotes).tasks twoNotesTree ⟨.wrapped, .first⟩).toOption.map
      (·.map noteTime)) = some [1709186704, -1] := by
    rw [Source.tasks, Source.records, Notebook.records, Notebook.readings, notes_twoNotes]
    decide +kernel
  cases htasks : (Source.notebook twoNotes).tasks twoNotesTree ⟨.wrapped, .first⟩ with
  | error e =>
      rw [htasks] at htimes
      exact nomatch htimes
  | ok tasks =>
      rw [htasks] at htimes
      refine ⟨tasks, rfl, Option.some.inj htimes, hsort _ _ _ fun t ht => ⟨?_, ?_⟩⟩
      · rw [noteTime]
        split <;> decide
      · obtain ⟨note, file, h⟩ := hreads _ _ _ _ htasks t ht
        exact ⟨_, _, _, note, file, h, modified_eq_noteTime h⟩

end Checklist
