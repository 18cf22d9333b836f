import Mathlib.Data.Nat.Find
import Checklist.Proofs.NoteRows

/-!
# Searching notes — the line that an id means

Replacing a line goes over the notes in order and makes the ids of all lines that it comes by. A
note without a line of the id is passed over (`Passes`). The search ends in one of four ways
(`searchEnds_planReplace`): at the first note that has a line of the id, at a note that cannot be
read before that, at a note with lines whose path is no text, so that they have no ids, or behind
the last note. The middle two are where it `Stops`, and there no line is found
(`planReplace_of_stops`).
-/

namespace Checklist

open Text

namespace Notebook

variable {book : Notebook} {tree : FileTree} {id : RawText} {note : Path} {before : List Line}
  {old : Line} {rest : List Line}

/-! ## The text with the line replaced -/

/-- The raw text of a note with another line in the place of `old`. -/
def relined (line : RawText) (before : List Line) (old : Line) (rest : List Line) : RawText :=
  .ofText (before.flatMap Line.source) ++
    (line ++ .ofText (keptEnding old.ending ++ rest.flatMap Line.source))

/-- The text of a note with a text in the place of `old`. -/
def relinedText (line : Text) (before : List Line) (old : Line) (rest : List Line) : Text :=
  before.flatMap Line.source ++ (line ++ keptEnding old.ending ++ rest.flatMap Line.source)

/-- With a text for the new line, the note is a text. -/
theorem relined_ofText (line : Text) (before : List Line) (old : Line) (rest : List Line) :
    relined (.ofText line) before old rest = .ofText (relinedText line before old rest) := by
  simp only [relined, relinedText, RawText.ofText_append, List.append_assoc]

/-- The note is a text exactly when the new line is one, as all other lines are. -/
theorem isText_relined_iff {line : RawText} :
    (relined line before old rest).IsText ↔ line.IsText := by
  rw [relined, RawText.isText_append_iff, RawText.isText_append_iff]
  constructor
  · exact fun h => h.2.1
  · exact fun h => ⟨RawText.isText_ofText _, h, RawText.isText_ofText _⟩

/-- Lines of which none has the id are all kept. By induction on the lines, which are numbered on.
-/
theorem replaceIn_eq_none {path : Text} (line : RawText) {number : Nat} {all : List Line}
    (h : ∀ k < all.length, RawText.ofText (lineId path (number + k : Nat)) ≠ id) :
    replaceIn path id line number all = none := by
  induction all generalizing number with
  | nil => rfl
  | cons old all ih =>
      have hlater : ∀ k < all.length, RawText.ofText (lineId path (number + 1 + k : Nat)) ≠ id := by
        intro k hk
        rw [Nat.add_assoc, Nat.add_comm 1]
        exact h (k + 1) (Nat.succ_lt_succ hk)
      have hfirst : RawText.ofText (lineId path number) ≠ id := h 0 (Nat.succ_pos _)
      rw [replaceIn, if_neg hfirst, ih hlater]
      rfl

/-- The first line that has the id is replaced. -/
theorem replaceIn_append {path : Text} (line : RawText) {number : Nat} {before : List Line}
    (hbefore : ∀ k < before.length, RawText.ofText (lineId path (number + k : Nat)) ≠ id)
    (hid : RawText.ofText (lineId path (number + before.length : Nat)) = id) (old : Line)
    (rest : List Line) :
    replaceIn path id line number (before ++ old :: rest) =
      some (number + before.length, relined line before old rest) := by
  induction before generalizing number with
  | nil =>
      have hid' : RawText.ofText (lineId path number) = id := hid
      rw [List.nil_append, replaceIn, if_pos hid']
      rfl
  | cons first before ih =>
      -- The count goes up by one while the list gets shorter.
      have hshift (k : Nat) : number + 1 + k = number + (k + 1) := by omega
      have hlater : ∀ k < before.length,
          RawText.ofText (lineId path (number + 1 + k : Nat)) ≠ id := by
        intro k hk
        rw [hshift]
        exact hbefore (k + 1) (Nat.succ_lt_succ hk)
      have hid' : RawText.ofText (lineId path (number + 1 + before.length : Nat)) = id := by
        rw [hshift]
        exact hid
      have hfirst : RawText.ofText (lineId path number) ≠ id := hbefore 0 (Nat.succ_pos _)
      rw [List.cons_append, replaceIn, if_neg hfirst, ih hlater hid', hshift]
      simp [relined, RawText.ofText_append]

/-! ## Ids of lines -/

/-- The id of the line of a note that has `k` lines before it, if the path of the note is a text. -/
def idAt (book : Notebook) (tree : FileTree) (note : Path) (k : Nat) : Option RawText :=
  (needText (book.relative tree note)).toOption.map fun path => .ofText (lineId path (1 + k : Nat))

/-- Where the path is a text, the lines have ids. -/
theorem idAt_of_relative {path : Text} (h : book.relative tree note = .ofText path) (k : Nat) :
    book.idAt tree note k = some (.ofText (lineId path (1 + k : Nat))) := by
  rw [idAt, h, needText_ofText]
  rfl

/-- A line with an id is in a note whose path is a text. -/
theorem exists_relative_of_idAt {k : Nat} (h : book.idAt tree note k = some id) :
    ∃ path, book.relative tree note = .ofText path ∧
      RawText.ofText (lineId path (1 + k : Nat)) = id := by
  unfold idAt at h
  cases hpath : needText (book.relative tree note) with
  | error e =>
      rw [hpath] at h
      exact nomatch h
  | ok path =>
      rw [hpath] at h
      exact ⟨path, needText_eq_ok_iff.mp hpath, Option.some.inj h⟩

/-- The first line of a note with an id, and what stands before and behind it. -/
structure FirstLine (book : Notebook) (tree : FileTree) (id : RawText) (note : Path)
    (before : List Line) (old : Line) (rest : List Line) : Prop where
  noteLines_eq : noteLines tree note = before ++ old :: rest
  idAt_ne : ∀ k < before.length, book.idAt tree note k ≠ some id
  idAt_eq : book.idAt tree note before.length = some id

/-- Whether the ids of a note can be looked through: it is read, or passed over as it is not valid
UTF-8, and if it has lines, its path is a text. -/
structure Searchable (book : Notebook) (tree : FileTree) (note : Path) : Prop where
  not_failed : ∀ e, read tree note ≠ .failed e
  isText_relative : noteLines tree note ≠ [] → (book.relative tree note).IsText

/-- Whether the search for the id goes on behind the note: none of its lines has the id. -/
structure Passes (book : Notebook) (tree : FileTree) (id : RawText) (note : Path) : Prop extends
    Searchable book tree note where
  idAt_ne : ∀ k < (noteLines tree note).length, book.idAt tree note k ≠ some id

/-- A note with lines was read as a text. -/
theorem exists_text_of_noteLines (h : noteLines tree note ≠ []) :
    ∃ text, read tree note = .text text ∧ lines text = noteLines tree note := by
  unfold noteLines at h ⊢
  cases hread : read tree note with
  | text text => exact ⟨text, rfl, rfl⟩
  | undecodable e => exact absurd (by rw [hread]) h
  | failed e => exact absurd (by rw [hread]) h

/-- A note with a line is not empty. -/
theorem FirstLine.noteLines_ne_nil (h : book.FirstLine tree id note before old rest) :
    noteLines tree note ≠ [] := by
  rw [h.noteLines_eq]
  exact List.append_ne_nil_of_right_ne_nil _ (List.cons_ne_nil _ _)

/-- A note in which a line was found can be looked through. -/
theorem FirstLine.searchable (h : book.FirstLine tree id note before old rest) :
    book.Searchable tree note where
  not_failed := by
    obtain ⟨text, hread, -⟩ := exists_text_of_noteLines h.noteLines_ne_nil
    intro e hfailed
    exact nomatch hread.symm.trans hfailed
  isText_relative := fun _ => by
    obtain ⟨path, hpath, -⟩ := exists_relative_of_idAt h.idAt_eq
    exact ⟨path, hpath⟩

/-- A note in which a line was found is not passed over. -/
theorem FirstLine.not_passes (h : book.FirstLine tree id note before old rest) :
    ¬book.Passes tree id note := by
  intro hpasses
  refine hpasses.idAt_ne before.length ?_ h.idAt_eq
  rw [h.noteLines_eq, List.length_append, List.length_cons]
  omega

/-- A note that can be looked through has a first line with the id, or none at all. -/
theorem Searchable.exists_firstLine_or_passes (h : book.Searchable tree note) (id : RawText) :
    (∃ before old rest, book.FirstLine tree id note before old rest) ∨
      book.Passes tree id note := by
  by_cases hsome : ∃ k, k < (noteLines tree note).length ∧ book.idAt tree note k = some id
  · obtain ⟨hlt, hid⟩ := Nat.find_spec hsome
    refine .inl ⟨(noteLines tree note).take (Nat.find hsome), (noteLines tree note)[Nat.find hsome],
      (noteLines tree note).drop (Nat.find hsome + 1), ?_, ?_, ?_⟩
    · rw [List.getElem_cons_drop, List.take_append_drop]
    · intro k hk hid
      rw [List.length_take] at hk
      exact Nat.find_min hsome (by omega) ⟨by omega, hid⟩
    · rw [List.length_take_of_le (Nat.le_of_lt hlt)]
      exact hid
  · exact .inr ⟨h, fun k hk hid => hsome ⟨k, hk, hid⟩⟩

/-! ## One note of the search -/

/-- A note that is passed over is not to be written. -/
theorem Passes.editIn_eq (h : book.Passes tree id note) (line : RawText) :
    book.editIn tree id line note (read tree note) = .ok none := by
  cases hread : read tree note with
  | failed e => exact absurd hread (h.not_failed e)
  | undecodable e => rfl
  | text text =>
      have hlines : noteLines tree note = lines text := by rw [noteLines, hread]
      rw [editIn, ← hlines]
      by_cases hempty : noteLines tree note = []
      · rw [hempty]
        rfl
      · obtain ⟨path, hpath⟩ := h.isText_relative hempty
        have hnone : replaceIn path id line 1 (noteLines tree note) = none := by
          refine replaceIn_eq_none line fun k hk hid => h.idAt_ne k hk ?_
          rw [idAt_of_relative hpath, hid]
        rw [if_neg (by simpa using hempty), hpath, needText_ofText]
        exact congrArg (fun found => Except.ok (Option.map _ found)) hnone

/-- A note with a line of the id is to be written, with this line replaced. -/
theorem FirstLine.editIn_eq (h : book.FirstLine tree id note before old rest) (line : RawText) :
    book.editIn tree id line note (read tree note) =
      .ok (some ⟨note, 1 + before.length, relined line before old rest⟩) := by
  obtain ⟨text, hread, hlines⟩ := exists_text_of_noteLines h.noteLines_ne_nil
  obtain ⟨path, hpath, hid⟩ := exists_relative_of_idAt h.idAt_eq
  have hbefore : ∀ k < before.length, RawText.ofText (lineId path (1 + k : Nat)) ≠ id := by
    intro k hk hne
    refine h.idAt_ne k hk ?_
    rw [idAt_of_relative hpath, hne]
  have hfound := replaceIn_append line hbefore hid old rest
  rw [hread, editIn, hlines, if_neg (by simpa using h.noteLines_ne_nil), hpath, needText_ofText,
    h.noteLines_eq]
  exact congrArg (fun found => Except.ok (Option.map _ found)) hfound

/-- A note whose lines have no ids cannot be passed over. -/
theorem editIn_eq_error (hlines : noteLines tree note ≠ []) {e : NoteError}
    (he : needText (book.relative tree note) = .error e) (id line : RawText) :
    book.editIn tree id line note (read tree note) = .error e := by
  obtain ⟨text, hread, htext⟩ := exists_text_of_noteLines hlines
  rw [hread, editIn, htext, if_neg (by simpa using hlines), he]
  rfl

/-! ## The search over the notes -/

/-- Whether the search over the notes comes to this one. -/
def Reaches (book : Notebook) (tree : FileTree) (id : RawText) (notes : List Path) (note : Path) :
    Prop :=
  ∃ passed rest, notes = passed ++ note :: rest ∧ ∀ n ∈ passed, book.Passes tree id n

/-- It comes to the first note in any case. -/
theorem Reaches.head (note : Path) (rest : List Path) :
    book.Reaches tree id (note :: rest) note :=
  ⟨[], rest, rfl, fun _ h => absurd h List.not_mem_nil⟩

/-- A note more in front, which is passed over, does not keep it from coming there. -/
theorem Reaches.cons {first : Path} {notes : List Path} (hfirst : book.Passes tree id first)
    (h : book.Reaches tree id notes note) : book.Reaches tree id (first :: notes) note := by
  obtain ⟨passed, rest, rfl, hpassed⟩ := h
  exact ⟨first :: passed, rest, rfl, List.forall_mem_cons.mpr ⟨hfirst, hpassed⟩⟩

/-- What the search reaches is one of the notes. -/
theorem Reaches.mem {notes : List Path} (h : book.Reaches tree id notes note) : note ∈ notes := by
  obtain ⟨passed, rest, rfl, -⟩ := h
  exact List.mem_append_right passed List.mem_cons_self

/-- There is one note only where it does not go on. -/
theorem Reaches.eq_of_not_passes {other : Path} {notes : List Path}
    (h : book.Reaches tree id notes note) (hnote : ¬book.Passes tree id note)
    (h' : book.Reaches tree id notes other) (hother : ¬book.Passes tree id other) :
    note = other := by
  obtain ⟨passed, rest, rfl, hpassed⟩ := h
  obtain ⟨passed', rest', heq, hpassed'⟩ := h'
  -- If one came before the other, it would be among the notes that are passed over there.
  rcases List.append_eq_append_iff.mp heq with ⟨more, rfl, hmore⟩ | ⟨more, rfl, hmore⟩
  · cases more with
    | nil => exact (List.cons.inj hmore).1
    | cons first more =>
        rw [(List.cons.inj hmore).1] at hnote
        exact absurd (hpassed' first (by simp)) hnote
  · cases more with
    | nil => exact (List.cons.inj hmore).1.symm
    | cons first more =>
        rw [(List.cons.inj hmore).1] at hother
        exact absurd (hpassed first (by simp)) hother

/-- Whether the search comes to a note that cannot be looked through before it finds the id. -/
def Stops (book : Notebook) (tree : FileTree) (id : RawText) : Prop :=
  ∃ note, book.Reaches tree id (book.notes tree) note ∧ ¬book.Searchable tree note

/-- How a search over the notes ends: at the first line with the id, at a note that cannot be read
before that or has lines without ids, or behind the last note. -/
inductive SearchEnds (book : Notebook) (tree : FileTree) (id line : RawText) (notes : List Path) :
    Except NoteError Edit → Prop where
  | found {note : Path} {before : List Line} {old : Line} {rest : List Line}
      (hreaches : book.Reaches tree id notes note)
      (hline : book.FirstLine tree id note before old rest) :
      SearchEnds book tree id line notes
        (.ok ⟨note, 1 + before.length, relined line before old rest⟩)
  | failed {note : Path} {e : FileError} (hreaches : book.Reaches tree id notes note)
      (hread : read tree note = .failed e) :
      SearchEnds book tree id line notes (.error (.file e))
  | unnamed {note : Path} {e : EncodeError} (hreaches : book.Reaches tree id notes note)
      (hlines : noteLines tree note ≠ [])
      (hpath : needText (book.relative tree note) = .error (.unencodable e)) :
      SearchEnds book tree id line notes (.error (.unencodable e))
  | missing (hnotes : ∀ n ∈ notes, book.Passes tree id n) :
      SearchEnds book tree id line notes (.error (.unknownRecord id))

/-- A note that is passed over does not change how the search ends. -/
theorem SearchEnds.cons {line : RawText} {first : Path} {notes : List Path}
    {result : Except NoteError Edit} (hfirst : book.Passes tree id first)
    (h : book.SearchEnds tree id line notes result) :
    book.SearchEnds tree id line (first :: notes) result := by
  cases h with
  | found hreaches hline => exact .found (hreaches.cons hfirst) hline
  | failed hreaches hread => exact .failed (hreaches.cons hfirst) hread
  | unnamed hreaches hlines hpath => exact .unnamed (hreaches.cons hfirst) hlines hpath
  | missing hnotes => exact .missing (List.forall_mem_cons.mpr ⟨hfirst, hnotes⟩)

/-- By induction on the notes that are left. -/
theorem searchEnds_editOf (book : Notebook) (tree : FileTree) (id line : RawText)
    (notes : List Path) : book.SearchEnds tree id line notes
      (book.editOf tree id line (notes.map fun n => (n, read tree n))) := by
  induction notes with
  | nil => exact .missing fun _ h => absurd h List.not_mem_nil
  | cons first notes ih =>
      -- A note that can be searched has the line, or the search goes on behind it.
      have hgo (hsearchable : book.Searchable tree first) :
          book.SearchEnds tree id line (first :: notes)
            (book.editOf tree id line ((first :: notes).map fun n => (n, read tree n))) := by
        rw [List.map_cons, editOf]
        rcases hsearchable.exists_firstLine_or_passes id with ⟨before, old, rest, hline⟩ | hpasses
        · rw [hline.editIn_eq]
          exact .found (.head first notes) hline
        · rw [hpasses.editIn_eq]
          exact ih.cons hpasses
      by_cases hfailed : ∃ e, read tree first = .failed e
      · obtain ⟨e, he⟩ := hfailed
        rw [List.map_cons, editOf, he]
        exact .failed (.head first notes) he
      · have hread : ∀ e, read tree first ≠ .failed e := fun e he => hfailed ⟨e, he⟩
        -- An id is made for each line until one fits, so an empty note needs no name.
        by_cases hlines : noteLines tree first = []
        · exact hgo ⟨hread, fun hne => absurd hlines hne⟩
        · by_cases hpath : (book.relative tree first).IsText
          · exact hgo ⟨hread, fun _ => hpath⟩
          · obtain ⟨e, he⟩ := needText_of_not_isText hpath
            rw [List.map_cons, editOf, editIn_eq_error hlines he]
            exact .unnamed (.head first notes) hlines he

/-- So ends the search over the notes of a notebook. -/
theorem searchEnds_planReplace (book : Notebook) (tree : FileTree) (id line : RawText) :
    book.SearchEnds tree id line (book.notes tree) (book.planReplace tree id line) :=
  searchEnds_editOf book tree id line (book.notes tree)

/-- A note that cannot be read keeps the search from going on. -/
theorem stops_of_failed {e : FileError} (hreaches : book.Reaches tree id (book.notes tree) note)
    (hread : read tree note = .failed e) : book.Stops tree id :=
  ⟨note, hreaches, fun h => h.not_failed e hread⟩

/-- So does one whose lines have no ids. -/
theorem stops_of_unnamed {e : NoteError} (hreaches : book.Reaches tree id (book.notes tree) note)
    (hlines : noteLines tree note ≠ []) (hpath : needText (book.relative tree note) = .error e) :
    book.Stops tree id := by
  refine ⟨note, hreaches, fun h => ?_⟩
  obtain ⟨path, htext⟩ := h.isText_relative hlines
  rw [htext, needText_ofText] at hpath
  exact nomatch hpath

/-- Where a line is found the search does not stop. -/
theorem not_stops_of_found (hreaches : book.Reaches tree id (book.notes tree) note)
    (hline : book.FirstLine tree id note before old rest) : ¬book.Stops tree id := by
  rintro ⟨other, hother, hsearchable⟩
  have heq := hreaches.eq_of_not_passes hline.not_passes hother
    fun hpasses => hsearchable hpasses.toSearchable
  exact hsearchable (heq ▸ hline.searchable)

/-- Where the search stops it fails. -/
theorem planReplace_of_stops (h : book.Stops tree id) (line : RawText) :
    ∃ e, book.planReplace tree id line = .error e := by
  generalize hplan : book.planReplace tree id line = plan
  have hends : book.SearchEnds tree id line (book.notes tree) plan :=
    hplan ▸ searchEnds_planReplace book tree id line
  cases hends with
  | found hreaches hline => exact absurd h (not_stops_of_found hreaches hline)
  | failed => exact ⟨_, rfl⟩
  | unnamed => exact ⟨_, rfl⟩
  | missing => exact ⟨_, rfl⟩

end Notebook

end Checklist
