import Checklist.Notes.Notebook
import Checklist.Proofs.FileNames
import Checklist.Proofs.FileTrees

/-!
# Note files — the notes of a notebook after one was written anew

Writing a file anew leaves the notes of a notebook and their paths what they were
(`notes_withText`, `relative_withText`). The note that is written reads like the text, as long as it
holds no carriage return (`read_withText_self`), and the others read as before
(`read_withText_other`): in a canonical tree, paths of notes that lead to one place are one path
(`eq_of_locate`). A raw text that is none leaves the note empty (`writeNote_eq`). A line can be
appended to a note exactly when it reads as a text (`exists_text_of_planAppend`), and what comes of
that follows from the line and the path of the note (`appendLine_of_read`).
-/

namespace Checklist

open Text

/-! ## Steps that may fail -/

section Steps

variable {α β ε ε' : Type} {x : Except ε α}

/-- Two steps give a result when the first gives one with which the second gives it. -/
theorem bind_eq_ok_iff {f : α → Except ε β} {b : β} :
    x >>= f = .ok b ↔ ∃ a, x = .ok a ∧ f a = .ok b := by
  cases x with
  | error e => exact iff_of_false nofun (by rintro ⟨_, h, -⟩; exact nomatch h)
  | ok a =>
      constructor
      · exact fun h => ⟨a, rfl, h⟩
      · rintro ⟨_, ⟨⟩, h⟩
        exact h

/-- A step whose result is changed gives one when it did before. -/
theorem map_eq_ok_iff {f : α → β} {b : β} : x.map f = .ok b ↔ ∃ a, x = .ok a ∧ f a = b := by
  cases x with
  | error e => exact iff_of_false nofun (by rintro ⟨_, h, -⟩; exact nomatch h)
  | ok a =>
      constructor
      · exact fun h => ⟨a, rfl, Except.ok.inj h⟩
      · rintro ⟨_, ⟨⟩, rfl⟩
        rfl

/-- A step whose error is told otherwise gives the same results. -/
theorem mapError_eq_ok_iff {f : ε → ε'} {a : α} : x.mapError f = .ok a ↔ x = .ok a := by
  cases x with
  | error e => exact iff_of_false nofun nofun
  | ok b =>
      constructor
      · exact fun h => congrArg Except.ok (Except.ok.inj h)
      · exact fun h => congrArg Except.ok (Except.ok.inj h)

end Steps

namespace FileTree

/-- The path leads to this location, and there is a file. -/
structure LeadsToFile (tree : FileTree) (path : Path) (target : Location) : Prop where
  locate_eq : tree.locate path = .ok target
  exists_file : ∃ file, tree.nodeAt target = some (.file file)

/-- The tree with the text written at the location. -/
def withText (tree : FileTree) (target : Location) (text : Text) : FileTree :=
  tree.withFile target (tree.written (Utf8.encode text))

end FileTree

namespace Notebook

variable {book : Notebook} {tree after : FileTree} {note : Path} {target : Location}

/-! ## Texts that are needed -/

/-- The raw text of a text gives the text. -/
@[simp]
theorem needText_ofText (t : Text) : needText (.ofText t) = .ok t := by
  rw [needText, RawText.asText_ofText]
  rfl

/-- A text is given by its raw text alone. -/
theorem needText_eq_ok_iff {s : RawText} {t : Text} : needText s = .ok t ↔ s = .ofText t :=
  mapError_eq_ok_iff.trans RawText.asText_eq_ok_iff

/-- What is no text fails as it cannot be encoded. -/
theorem needText_of_not_isText {s : RawText} (h : ¬s.IsText) :
    ∃ e, needText s = .error (.unencodable e) := by
  obtain ⟨e, he⟩ := RawText.exists_asText_error h
  refine ⟨e, ?_⟩
  rw [needText, he]
  rfl

/-! ## Writing to a note -/

/-- Writing to a note that is there puts the text into it, or empties it when there is no text. -/
theorem writeNote_eq (h : tree.LeadsToFile note target) (s : RawText) :
    writeNote tree note s = match needText s with
      | .ok text => (tree.withText target text, .ok ())
      | .error e => (tree.withText target [], .error e) := by
  obtain ⟨file, hfile⟩ := h.exists_file
  have hwrite (text : Text) :
      tree.writeFile note (Utf8.encode text) = .ok (tree.withText target text) := by
    refine FileTree.writeFile_eq_ok_iff.mpr ⟨target, h.locate_eq, ?_, rfl⟩
    rw [hfile]
    simp
  unfold writeNote
  cases needText s with
  | ok text => simp only [hwrite text]
  | error e =>
      have hempty := hwrite []
      rw [Utf8.encode, List.flatMap_nil] at hempty
      simp only [hempty]

/-- A text is written to a note that is there. -/
theorem writeNote_ofText (h : tree.LeadsToFile note target) (text : Text) :
    writeNote tree note (.ofText text) = (tree.withText target text, .ok ()) := by
  rw [writeNote_eq h, needText_ofText]

/-- Writing to a note keeps the tree canonical, whatever comes of it. -/
theorem canonical_writeNote (hcanonical : tree.Canonical) (note : Path) (s : RawText) :
    (writeNote tree note s).1.Canonical := by
  unfold writeNote
  cases needText s with
  | ok text =>
      dsimp only
      split
      · next hwrite => exact hcanonical.writeFile hwrite
      · exact hcanonical
  | error e =>
      dsimp only
      split
      · next hwrite => exact hcanonical.writeFile hwrite
      · exact hcanonical

/-- Replacing a line keeps the tree canonical, whatever comes of it. -/
theorem canonical_replaceLine (book : Notebook) (hcanonical : tree.Canonical) (id line : RawText) :
    (book.replaceLine tree id line).1.Canonical := by
  unfold replaceLine
  split
  · exact canonical_writeNote hcanonical _ _
  · exact hcanonical

/-! ## The notes and their paths -/

/-- A new text of a note keeps the list of the notes. -/
theorem notes_withText (h : tree.LeadsToFile note target) (text : Text) :
    book.notes (tree.withText target text) = book.notes tree := by
  obtain ⟨file, hfile⟩ := h.exists_file
  unfold notes FileTree.withText
  rw [FileTree.isFile_withFile hfile, FileTree.locate_withFile hfile]
  cases tree.locate book.root with
  | error fault => rfl
  | ok base => simp only [FileTree.below_withFile hfile]

/-- And it keeps what the notes are called in their ids. -/
theorem relative_withText (h : tree.LeadsToFile note target) (text : Text) (other : Path) :
    book.relative (tree.withText target text) other = book.relative tree other := by
  obtain ⟨file, hfile⟩ := h.exists_file
  unfold relative FileTree.withText
  rw [FileTree.isFile_withFile hfile]

/-- What leads to a file is one. -/
theorem isFile_of_leadsToFile (h : tree.LeadsToFile note target) : tree.isFile note = true := by
  obtain ⟨file, hfile⟩ := h.exists_file
  simp only [FileTree.isFile, FileTree.node?, h.locate_eq, hfile]

/-- A root that is a file is the only note. -/
theorem notes_root (h : tree.LeadsToFile book.root target) : book.notes tree = [book.root] :=
  if_pos (isFile_of_leadsToFile h)

/-- And its path is its bare name. -/
theorem relative_root (h : tree.LeadsToFile book.root target) :
    book.relative tree book.root = book.root.name :=
  if_pos (isFile_of_leadsToFile h)

/-- In a canonical tree, paths of notes that lead to one place are one path. -/
theorem eq_of_locate (hcanonical : tree.Canonical) {p q : Path} (hp : p ∈ book.notes tree)
    (hq : q ∈ book.notes tree) {location : Location} (hlp : tree.locate p = .ok location)
    (hlq : tree.locate q = .ok location) : p = q := by
  unfold notes at hp hq
  split at hp
  · next hfile =>
      rw [if_pos hfile] at hq
      rw [List.mem_singleton.mp hp, List.mem_singleton.mp hq]
  · next hfile =>
      rw [if_neg hfile] at hq
      cases hbase : tree.locate book.root with
      | error fault =>
          rw [hbase] at hp
          exact absurd hp List.not_mem_nil
      | ok base =>
          rw [hbase] at hp hq
          obtain ⟨shown, hshown, rfl⟩ := List.mem_map.mp hp
          obtain ⟨shown', hshown', rfl⟩ := List.mem_map.mp hq
          obtain ⟨names, hnames, rfl⟩ :=
            List.mem_map.mp (List.mem_filter.mp (List.mem_mergeSort.mp hshown)).1
          obtain ⟨others, hothers, rfl⟩ :=
            List.mem_map.mp (List.mem_filter.mp (List.mem_mergeSort.mp hshown')).1
          have hcut := FileTree.eq_of_locate_join hbase (by
            rw [RawText.map_nameBytes_decodeName]
            exact hcanonical.upName_not_mem hnames) hlp
          have hcut' := FileTree.eq_of_locate_join hbase (by
            rw [RawText.map_nameBytes_decodeName]
            exact hcanonical.upName_not_mem hothers) hlq
          -- The names on the disk are one row, so they are shown as one.
          rw [RawText.map_nameBytes_decodeName] at hcut hcut'
          rw [List.append_cancel_left (hcut.symm.trans hcut')]

/-! ## Reading the notes -/

/-- A text that was read holds no carriage return, since line breaks were unified. -/
theorem return_not_mem_of_readText {file : File} {text : Text} (h : readText file = .ok text) :
    '\r' ∉ text := by
  unfold readText at h
  cases hdecode : Utf8.decode file.bytes with
  | error e =>
      rw [hdecode] at h
      exact nomatch h
  | ok content =>
      rw [hdecode] at h
      obtain rfl := Except.ok.inj h
      exact return_not_mem_unifyNewlines content

/-- A note reads as a text when it is a file that holds one. -/
theorem read_eq_text_iff {text : Text} :
    read tree note = .text text ↔
      ∃ target file, tree.locate note = .ok target ∧ tree.nodeAt target = some (.file file) ∧
        readText file = .ok text := by
  unfold read
  constructor
  · intro h
    split at h
    · exact nomatch h
    · next file hfile =>
        obtain ⟨target, htarget, hnode⟩ := FileTree.readFile_eq_ok_iff.mp hfile
        split at h
        · next found htext =>
            obtain rfl := Reading.text.inj h
            exact ⟨target, file, htarget, hnode, htext⟩
        · exact nomatch h
  · rintro ⟨target, file, htarget, hnode, htext⟩
    rw [FileTree.readFile_eq_ok_iff.mpr ⟨target, htarget, hnode⟩]
    simp only [htext]

/-- A note that is read as a text is a file, and its text has no carriage returns. -/
theorem exists_file_of_read {text : Text} (h : read tree note = .text text) :
    '\r' ∉ text ∧ ∃ target, tree.LeadsToFile note target := by
  obtain ⟨target, file, htarget, hnode, htext⟩ := read_eq_text_iff.mp h
  exact ⟨return_not_mem_of_readText htext, target, htarget, file, hnode⟩

/-- A file with a text in UTF-8 reads as the text, with unified newlines. -/
theorem read_of_readFile {file : File} {content : Text} (hfile : tree.readFile note = .ok file)
    (hcontent : Utf8.decode file.bytes = .ok content) :
    read tree note = .text (unifyNewlines content) := by
  rw [read, hfile]
  simp only [readText, hcontent, Except.map]

/-- A text that is written to a note is read there, but for carriage returns. -/
theorem read_withText_self (h : tree.LeadsToFile note target) {text : Text} (htext : '\r' ∉ text) :
    read (tree.withText target text) note = .text text := by
  obtain ⟨file, hfile⟩ := h.exists_file
  have hread : readText (tree.written (Utf8.encode text)) = .ok text := by
    rw [readText, FileTree.written, Utf8.decode_encode]
    exact congrArg Except.ok (unifyNewlines_of_not_mem htext)
  unfold read FileTree.withText
  rw [FileTree.readFile_withFile_self hfile _ h.locate_eq]
  simp only [hread]

/-- The files of the other notes are what they were. -/
theorem readFile_withText_other (hcanonical : tree.Canonical) (hnote : note ∈ book.notes tree)
    (h : tree.LeadsToFile note target) (text : Text) {other : Path}
    (hother : other ∈ book.notes tree) (hne : other ≠ note) :
    (tree.withText target text).readFile other = tree.readFile other := by
  obtain ⟨file, hfile⟩ := h.exists_file
  have hplace : tree.locate other ≠ .ok target := fun heq =>
    hne (eq_of_locate hcanonical hother hnote heq h.locate_eq)
  exact FileTree.readFile_withFile_other hfile _ hplace

/-- So the other notes read as before. -/
theorem read_withText_other (hcanonical : tree.Canonical) (hnote : note ∈ book.notes tree)
    (h : tree.LeadsToFile note target) (text : Text) {other : Path}
    (hother : other ∈ book.notes tree) (hne : other ≠ note) :
    read (tree.withText target text) other = read tree other := by
  unfold read
  rw [readFile_withText_other hcanonical hnote h text hother hne]

/-! ## Appending a line -/

/-- A notebook is opened at a path where there is something, be it a file or a directory. -/
theorem open?_eq_ok_iff :
    open? tree note = .ok book ↔ book = ⟨note⟩ ∧ ∃ node, tree.probe note = .ok (some node) := by
  unfold open?
  constructor
  · intro h
    split at h
    · next node hnode => exact ⟨(Except.ok.inj h).symm, node, hnode⟩
    · exact nomatch h
    · exact nomatch h
  · rintro ⟨rfl, node, hnode⟩
    rw [hnode]

/-- So it can be opened at every note that was read. -/
theorem open?_of_read {text : Text} (h : read tree note = .text text) :
    open? tree note = .ok ⟨note⟩ := by
  obtain ⟨target, file, htarget, hfile, -⟩ := read_eq_text_iff.mp h
  exact open?_eq_ok_iff.mpr ⟨rfl, _, FileTree.probe_eq_some_iff.mpr ⟨target, htarget, hfile⟩⟩

/-- Where there is something, only a note that reads as a text can be appended to. -/
theorem exists_text_of_planAppend {node : Node} (hnode : tree.probe note = .ok (some node))
    {line : RawText} {edit : Edit} (h : planAppend tree line note = .ok edit) :
    ∃ text, read tree note = .text text := by
  rw [planAppend, contentOf, hnode] at h
  cases node with
  | directory => exact nomatch h
  | file file =>
      dsimp only at h
      cases htext : readText file with
      | error e =>
          rw [htext] at h
          exact nomatch h
      | ok text =>
          obtain ⟨target, htarget, hfile⟩ := FileTree.probe_eq_some_iff.mp hnode
          exact ⟨text, read_eq_text_iff.mpr ⟨target, file, htarget, hfile, htext⟩⟩

/-- The line is put behind what the note reads like. -/
theorem planAppend_of_read {text : Text} (h : read tree note = .text text) (line : RawText) :
    planAppend tree line note =
      .ok ⟨note, (appendedText text line).2, (appendedText text line).1⟩ := by
  obtain ⟨target, file, htarget, hfile, htext⟩ := read_eq_text_iff.mp h
  have hcontent : contentOf tree note = .ok text := by
    rw [contentOf, FileTree.probe_eq_some_iff.mpr ⟨target, htarget, hfile⟩]
    simp only [htext]
    rfl
  rw [planAppend, hcontent]
  rfl

/-- A note that was just written has the time of the clock, which has a text. -/
theorem provenance_withText (h : tree.LeadsToFile note target) (path text : Text) :
    provenance (tree.withText target text) path note =
      .ok ⟨some path, some tree.clock.text, some tree.clock.text⟩ := by
  obtain ⟨file, hfile⟩ := h.exists_file
  have hread := FileTree.readFile_withFile_self hfile (tree.written (Utf8.encode text)) h.locate_eq
  rw [provenance, FileTree.withText, hread]
  show ((isoOfStamp tree.clock.seconds).mapError NoteError.stamp >>= _) = _
  rw [tree.clock.iso_eq]
  show ((isoOfStamp tree.clock.seconds).mapError NoteError.stamp >>= _) = _
  rw [tree.clock.iso_eq]
  rfl

/-- What the note reads like with a text for a line more. -/
def longerText (text line : Text) : Text :=
  (if text = [] ∨ text.getLast? = some '\n' then text else text ++ ['\n']) ++ line ++ ['\n']

/-- With a text for a line more, what a note reads like is a text. -/
theorem appendedText_ofText (text line : Text) :
    (appendedText text (.ofText line)).1 = .ofText (longerText text line) := by
  unfold appendedText longerText
  rw [RawText.ofText_append, RawText.ofText_append]
  rfl

/-- A text can be appended to the root of a notebook that reads as a text, and then its record is
told if the name of the note is a text. -/
theorem appendLine_of_read {text : Text} (h : read tree book.root = .text text)
    (hleads : tree.LeadsToFile book.root target) (line : Text) :
    book.appendLine tree (.ofText line) none =
      (tree.withText target (longerText text line),
        (needText book.root.name).map fun path =>
          ⟨lineId path (appendedText text (.ofText line)).2, line,
            ⟨some path, some tree.clock.text, some tree.clock.text⟩⟩) := by
  rw [appendLine, Option.getD_none, planAppend_of_read h]
  simp only [appendedText_ofText, writeNote_ofText hleads]
  rw [recordOf, relative_withText hleads, relative_root hleads]
  cases needText book.root.name with
  | error e => rfl
  | ok path =>
      show (_, provenance _ path book.root >>= _) = _
      rw [provenance_withText hleads]
      show (_, needText (.ofText line) >>= _) = _
      rw [needText_ofText]
      rfl

/-- What is no text leaves the root empty. -/
theorem appendLine_of_not_isText {text : Text} (h : read tree book.root = .text text)
    (hleads : tree.LeadsToFile book.root target) {line : RawText} (hline : ¬line.IsText) :
    ∃ e, book.appendLine tree line none = (tree.withText target [], .error (.unencodable e)) := by
  have hnone : ¬(appendedText text line).1.IsText := by
    rw [appendedText, RawText.isText_append_iff, RawText.isText_append_iff]
    exact fun htext => hline htext.1.2
  obtain ⟨e, he⟩ := needText_of_not_isText hnone
  refine ⟨e, ?_⟩
  rw [appendLine, Option.getD_none, planAppend_of_read h]
  simp only [writeNote_eq hleads, he]

end Notebook

end Checklist
