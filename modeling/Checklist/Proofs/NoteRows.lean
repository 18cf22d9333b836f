import Checklist.Proofs.LineCuts
import Checklist.Proofs.NoteFiles

/-!
# Rows of notes — what records tell of the lines of a notebook

A row is a record without its times: an id, a line, and the path of the note. The rows of a note
follow from its lines alone (`rows`), and the records of a notebook tell the rows of its notes one
after the other (`map_row_of_records`). A note gives its records unless it cannot be read, or has
checklist lines and a path or a time that cannot be told (`exists_noteRecords_iff`).
-/

namespace Checklist

open Text

/-- A record without its times. -/
structure Row where
  id : Text
  line : Text
  path : Option Text
  deriving DecidableEq

/-- The row that a record tells. -/
def Record.row (r : Record) : Row := ⟨r.id, r.line, r.source.path⟩

/-- The row with another line, if it has this id. -/
def Row.relined (id line : Text) (row : Row) : Row := if row.id = id then { row with line } else row

namespace Notebook

/-- The rows of the lines of a note, of which the first has this number. -/
def rows (path : Text) : (number : Nat) → List Line → List Row
  | _, [] => []
  | number, line :: rest =>
    if isItem line.body then
      ⟨lineId path number, line.body, some path⟩ :: rows path (number + 1) rest
    else rows path (number + 1) rest

/-- The lines of a note; one that is not read has none. -/
def noteLines (tree : FileTree) (note : Path) : List Line :=
  match read tree note with
  | .text text => lines text
  | _ => []

/-- The rows of a note, of which one without a text for a path has none. -/
def noteRows (book : Notebook) (tree : FileTree) (note : Path) : List Row :=
  match needText (book.relative tree note) with
  | .ok path => rows path 1 (noteLines tree note)
  | .error _ => []

/-! ## Rows of lines -/

section Rows

variable {path : Text} {number : Nat} {old : Line} {before rest all : List Line}

/-- An item at the start of the lines is the first row. -/
theorem rows_cons_of_item (h : isItem old.body = true) :
    rows path number (old :: rest) =
      ⟨lineId path number, old.body, some path⟩ :: rows path (number + 1) rest :=
  if_pos h

/-- A line that is no item is counted and left out. -/
theorem rows_cons_of_not_item (h : isItem old.body = false) :
    rows path number (old :: rest) = rows path (number + 1) rest :=
  if_neg (by simp [h])

/-- Rows are found on either side of any line, with the count going on. -/
theorem rows_append (path : Text) (number : Nat) (before rest : List Line) :
    rows path number (before ++ rest) =
      rows path number before ++ rows path (number + before.length) rest := by
  induction before generalizing number with
  | nil => rfl
  | cons line before ih =>
      have hnumber : number + (line :: before).length = number + 1 + before.length := by
        rw [List.length_cons]
        omega
      rw [List.cons_append, rows, rows, ih, hnumber]
      split <;> rfl

/-- Each row is that of a line that is an item. -/
theorem exists_line_of_mem_rows {row : Row} (h : row ∈ rows path number all) :
    ∃ before old rest, all = before ++ old :: rest ∧ isItem old.body = true ∧
      row = ⟨lineId path (number + before.length : Nat), old.body, some path⟩ := by
  induction all generalizing number with
  | nil => exact absurd h List.not_mem_nil
  | cons line all ih =>
      have hlater (h : row ∈ rows path (number + 1) all) :
          ∃ before old rest, line :: all = before ++ old :: rest ∧ isItem old.body = true ∧
            row = ⟨lineId path (number + before.length : Nat), old.body, some path⟩ := by
        obtain ⟨before, old, rest, rfl, hitem, rfl⟩ := ih h
        refine ⟨line :: before, old, rest, rfl, hitem, ?_⟩
        rw [List.length_cons, Nat.add_assoc, Nat.add_comm 1]
      rw [rows] at h
      split at h
      · next hitem =>
          rcases List.mem_cons.mp h with rfl | h
          · exact ⟨[], line, all, rfl, hitem, rfl⟩
          · exact hlater h
      · exact hlater h

/-- Lines of which none is an item have no rows. -/
theorem rows_eq_nil (path : Text) (number : Nat)
    (h : ∀ line ∈ rest, isItem line.body = false) : rows path number rest = [] := by
  induction rest generalizing number with
  | nil => rfl
  | cons first rest ih =>
      obtain ⟨hfirst, hrest⟩ := List.forall_mem_cons.mp h
      rw [rows_cons_of_not_item hfirst, ih _ hrest]

/-- Rows whose ids are others keep their lines. -/
theorem map_relined_rows {id : Text} (line : Text)
    (h : ∀ k < all.length, lineId path (number + k : Nat) ≠ id) :
    (rows path number all).map (Row.relined id line) = rows path number all := by
  refine (List.map_congr_left fun row hrow => ?_).trans (List.map_id _)
  obtain ⟨before, old, rest, rfl, -, rfl⟩ := exists_line_of_mem_rows hrow
  exact if_neg (h before.length (by simp))

/-- There is a row for every item. -/
theorem length_rows (path : Text) (number : Nat) (all : List Line) :
    (rows path number all).length = all.countP fun line => isItem line.body := by
  induction all generalizing number with
  | nil => rfl
  | cons line all ih =>
      rw [rows, List.countP_cons, ← ih (number + 1)]
      split
      · next h => rw [List.length_cons]
      · next h => rfl

end Rows

/-! ## Rows of records -/

/-- The record of a numbered line, if it is an item. -/
def recordAt (path : Text) (source : Provenance) (numbered : Line × Nat) : Option Record :=
  if isItem numbered.1.body then some ⟨lineId path numbered.2, numbered.1.body, source⟩ else none

/-- What a note gives for a line is its row, whatever else is known of the note. -/
theorem map_row_recordAt {path : Text} {source : Provenance} (h : source.path = some path)
    (all : List Line) (number : Nat) :
    ((all.zipIdx number).filterMap (recordAt path source)).map Record.row =
      rows path number all := by
  induction all generalizing number with
  | nil => rfl
  | cons line all ih =>
      rw [List.zipIdx_cons]
      by_cases hitem : isItem line.body = true
      · have hrecord : recordAt path source (line, number) =
            some ⟨lineId path number, line.body, source⟩ := if_pos hitem
        rw [List.filterMap_cons_some hrecord, List.map_cons, ih, rows_cons_of_item hitem,
          Record.row, h]
      · have hrecord : recordAt path source (line, number) = none := if_neg hitem
        rw [List.filterMap_cons_none hrecord, ih, rows, if_neg hitem]

/-! ## Records of notes -/

variable {book : Notebook} {tree : FileTree} {note : Path} {rs : List Record}

/-- What reading a note gives to the records. -/
def noteRecords (book : Notebook) (tree : FileTree) (note : Path) :
    Except NoteError (List Record) :=
  book.recordsIn tree note (read tree note)

/-- Whether the records of a note can be told: its path is a text, and its times have texts. -/
structure CanTell (book : Notebook) (tree : FileTree) (note : Path) : Prop where
  isText_relative : (book.relative tree note).IsText
  exists_provenance : ∀ path, ∃ source, provenance tree path note = .ok source

/-- Whether some line of the note is an item. -/
def HasItem (tree : FileTree) (note : Path) : Prop :=
  ∃ line ∈ noteLines tree note, isItem line.body = true

/-- What is told of a note has the path that was asked for. -/
theorem path_of_provenance {path : Text} {source : Provenance}
    (h : provenance tree path note = .ok source) : source.path = some path := by
  unfold provenance at h
  obtain ⟨file, -, h⟩ := bind_eq_ok_iff.mp h
  obtain ⟨updated, -, h⟩ := bind_eq_ok_iff.mp h
  obtain ⟨created, -, h⟩ := bind_eq_ok_iff.mp h
  rw [← Except.ok.inj h]

/-- The times of a note have texts or have none, whatever its path is. -/
theorem exists_provenance_iff (path other : Text) :
    (∃ source, provenance tree path note = .ok source) ↔
      ∃ source, provenance tree other note = .ok source := by
  simp only [provenance, bind_eq_ok_iff]
  constructor
  · rintro ⟨_, file, hfile, updated, hupdated, created, hcreated, -⟩
    exact ⟨_, file, hfile, updated, hupdated, created, hcreated, rfl⟩
  · rintro ⟨_, file, hfile, updated, hupdated, created, hcreated, -⟩
    exact ⟨_, file, hfile, updated, hupdated, created, hcreated, rfl⟩

/-- The records of a note with items are told under its path. -/
theorem noteRecords_eq_ok_iff :
    book.noteRecords tree note = .ok rs ↔
      (∀ e, read tree note ≠ .failed e) ∧
      (¬HasItem tree note → rs = []) ∧
      (HasItem tree note → ∃ path source, book.relative tree note = .ofText path ∧
        provenance tree path note = .ok source ∧
        rs = ((noteLines tree note).zipIdx 1).filterMap (recordAt path source)) := by
  unfold noteRecords HasItem noteLines
  cases hread : read tree note with
  | failed e =>
      refine iff_of_false nofun ?_
      rintro ⟨hread, -⟩
      exact hread e rfl
  | undecodable e =>
      constructor
      · intro h
        refine ⟨nofun, fun _ => (Except.ok.inj h).symm, ?_⟩
        rintro ⟨line, hline, -⟩
        exact absurd hline List.not_mem_nil
      · rintro ⟨-, hnone, -⟩
        rw [hnone (by rintro ⟨line, hline, -⟩; exact absurd hline List.not_mem_nil)]
        rfl
  | text text =>
      have hany : ((lines text).any fun line => isItem line.body) = true ↔
          ∃ line ∈ lines text, isItem line.body = true := List.any_eq_true
      -- The path is encoded for the first item, so a note without items may have any name.
      rw [recordsIn]
      split
      · next hitem =>
          have hitem := hany.mp hitem
          simp only [bind_eq_ok_iff, needText_eq_ok_iff]
          constructor
          · rintro ⟨path, hpath, source, hsource, hrs⟩
            exact ⟨nofun, fun hnone => absurd hitem hnone, fun _ =>
              ⟨path, source, hpath, hsource, (Except.ok.inj hrs).symm⟩⟩
          · rintro ⟨-, -, htold⟩
            obtain ⟨path, source, hpath, hsource, rfl⟩ := htold hitem
            exact ⟨path, hpath, source, hsource, rfl⟩
      · next hitem =>
          rw [hany] at hitem
          constructor
          · intro h
            exact ⟨nofun, fun _ => (Except.ok.inj h).symm, fun hsome => absurd hsome hitem⟩
          · rintro ⟨-, hnone, -⟩
            rw [hnone hitem]

/-- A note gives its records unless it cannot be read, or has items and cannot tell of them. -/
theorem exists_noteRecords_iff :
    (∃ rs, book.noteRecords tree note = .ok rs) ↔
      (∀ e, read tree note ≠ .failed e) ∧ (HasItem tree note → book.CanTell tree note) := by
  simp only [noteRecords_eq_ok_iff]
  constructor
  · rintro ⟨rs, hread, -, htold⟩
    refine ⟨hread, fun hitem => ?_⟩
    obtain ⟨path, source, hpath, hsource, -⟩ := htold hitem
    exact ⟨⟨path, hpath⟩, fun other => (exists_provenance_iff path other).mp ⟨source, hsource⟩⟩
  · rintro ⟨hread, htell⟩
    by_cases hitem : HasItem tree note
    · obtain ⟨⟨path, hpath⟩, hsources⟩ := htell hitem
      obtain ⟨source, hsource⟩ := hsources path
      exact ⟨_, hread, fun hnone => absurd hitem hnone, fun _ =>
        ⟨path, source, hpath, hsource, rfl⟩⟩
    · exact ⟨[], hread, fun _ => rfl, fun hsome => absurd hsome hitem⟩

/-- The records of a note tell its rows. -/
theorem map_row_of_noteRecords (h : book.noteRecords tree note = .ok rs) :
    rs.map Record.row = book.noteRows tree note := by
  obtain ⟨-, hnone, htold⟩ := noteRecords_eq_ok_iff.mp h
  unfold noteRows
  by_cases hitem : HasItem tree note
  · obtain ⟨path, source, hpath, hsource, rfl⟩ := htold hitem
    rw [hpath, needText_ofText]
    exact map_row_recordAt (path_of_provenance hsource) (noteLines tree note) 1
  · have hlines : ∀ line ∈ noteLines tree note, isItem line.body = false := fun line hline =>
      Bool.eq_false_iff.mpr fun h => hitem ⟨line, hline, h⟩
    rw [hnone hitem]
    cases needText (book.relative tree note) with
    | error e => rfl
    | ok path => exact (rows_eq_nil path 1 hlines).symm

/-- A note that was just written gives its records, if its path is a text: it has a time that can be
told. -/
theorem exists_noteRecords_withText {target : Location} (hleads : tree.LeadsToFile note target)
    (hpath : (book.relative tree note).IsText) {text : Text} (htext : '\r' ∉ text) :
    ∃ rs, book.noteRecords (tree.withText target text) note = .ok rs := by
  rw [exists_noteRecords_iff, read_withText_self hleads htext]
  refine ⟨nofun, fun _ => ⟨?_, fun path => ⟨_, provenance_withText hleads path text⟩⟩⟩
  rw [relative_withText hleads]
  exact hpath

/-! ## Records of notebooks -/

/-- The records are those of the notes, one note after the other. By induction on the notes. -/
theorem recordsOf_eq_ok_iff {notes : List Path} :
    book.recordsOf tree (notes.map fun note => (note, read tree note)) = .ok rs ↔
      ∃ found : Path → List Record, (∀ n ∈ notes, book.noteRecords tree n = .ok (found n)) ∧
        rs = notes.flatMap found := by
  constructor
  · intro h
    refine ⟨fun n => (book.noteRecords tree n).toOption.getD [], ?_⟩
    -- A step fails when its note does or a later one, so all of them have records.
    induction notes generalizing rs with
    | nil => exact ⟨fun n h => absurd h List.not_mem_nil, (Except.ok.inj h).symm⟩
    | cons note notes ih =>
        obtain ⟨first, hfirst, h⟩ := bind_eq_ok_iff.mp h
        obtain ⟨others, hothers, h⟩ := bind_eq_ok_iff.mp h
        have hfirst : book.noteRecords tree note = .ok first := hfirst
        obtain ⟨hnotes, hrest⟩ := ih hothers
        have htold : (book.noteRecords tree note).toOption.getD [] = first := by
          rw [hfirst]
          rfl
        refine ⟨List.forall_mem_cons.mpr ⟨?_, hnotes⟩, ?_⟩
        · dsimp only
          rw [htold, hfirst]
        · rw [← Except.ok.inj h, List.flatMap_cons, htold, hrest]
  · rintro ⟨found, hfound, rfl⟩
    induction notes with
    | nil => rfl
    | cons note notes ih =>
        obtain ⟨hfirst, hnotes⟩ := List.forall_mem_cons.mp hfound
        refine bind_eq_ok_iff.mpr ⟨_, hfirst, bind_eq_ok_iff.mpr ⟨_, ih hnotes, ?_⟩⟩
        rw [List.flatMap_cons]

/-- The records of a notebook are those of its notes. -/
theorem records_eq_ok_iff :
    book.records tree = .ok rs ↔
      ∃ found : Path → List Record,
        (∀ n ∈ book.notes tree, book.noteRecords tree n = .ok (found n)) ∧
          rs = (book.notes tree).flatMap found :=
  recordsOf_eq_ok_iff

/-- A notebook gives its records when each of its notes does. -/
theorem exists_records_iff (book : Notebook) (tree : FileTree) :
    (∃ rs, book.records tree = .ok rs) ↔
      ∀ n ∈ book.notes tree, ∃ rs, book.noteRecords tree n = .ok rs := by
  simp only [records_eq_ok_iff]
  constructor
  · rintro ⟨-, found, hfound, -⟩ n hn
    exact ⟨found n, hfound n hn⟩
  · intro h
    refine ⟨_, fun n => (book.noteRecords tree n).toOption.getD [], fun n hn => ?_, rfl⟩
    obtain ⟨rs, hrs⟩ := h n hn
    simp only [hrs]
    rfl

/-- The records tell the rows of the notes, one note after the other. -/
theorem map_row_of_records (h : book.records tree = .ok rs) :
    rs.map Record.row = (book.notes tree).flatMap (book.noteRows tree) := by
  obtain ⟨found, hfound, rfl⟩ := records_eq_ok_iff.mp h
  rw [List.map_flatMap, List.flatMap_def, List.flatMap_def]
  exact congrArg List.flatten (List.map_congr_left fun n hn => map_row_of_noteRecords (hfound n hn))

end Notebook

end Checklist
